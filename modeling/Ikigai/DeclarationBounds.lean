import Ikigai.DeclaredSpaces
import Ikigai.OrderedSet

/-!
# The bounds a declaration is held to

A declaration is charged one layer at a time: the node, its doors and its rules, and the
text they carry, never what it encloses. The builder measures a whole tree from a stack
before it recurses into it, so a tree far too deep is refused and not walked. It accepts
exactly the trees within the three bounds, whatever they share.
-/

namespace Ikigai

/-- The refusal of a declaration past a bound, found at a node. -/
def tooLarge (bound : DeclarationBound) (node : Text) : DeclarationError :=
  .tooLarge bound bound.limit node

/-- The nodes of a rule: its own, and one for each argument it fixes and each input it
declares. -/
def DeclaredRule.nodeShare (rule : DeclaredRule) : Nat :=
  1 + rule.fixes.length + rule.inputs.length

def FixedArgument.textShare (argument : FixedArgument) : Nat :=
  argument.name.byteLen + argument.value.text.byteLen

def ArgSpec.textShare (input : ArgSpec) : Nat :=
  input.name.byteLen + input.summary.byteLen + (input.class.map Text.byteLen).getD 0 +
    (input.default.map Text.byteLen).getD 0 + (input.oneOf.map Text.byteLen).sum

def DeclaredRule.textShare (rule : DeclaredRule) : Nat :=
  rule.source.byteLen + rule.target.byteLen + (rule.fixes.map FixedArgument.textShare).sum +
    (rule.inputs.map ArgSpec.textShare).sum

namespace DeclaredLayer

variable {τ : Type}

/-- A node, its doors and its rules. -/
def nodeShare (layer : DeclaredLayer τ) : Nat :=
  1 + match layer.kind with
    | .endpointSpace doors => doors.length
    | .«alias» rules _ => (rules.map DeclaredRule.nodeShare).sum
    | _ => 0

/-- The text they carry. -/
def textShare (layer : DeclaredLayer τ) : Nat :=
  (layer.id.map Text.byteLen).getD 0 +
    match layer.kind with
    | .endpointSpace doors =>
      (doors.map fun door => door.pattern.byteLen + door.endpoint.byteLen).sum
    | .«alias» rules _ => (rules.map DeclaredRule.textShare).sum
    | .mount head => head.byteLen
    | .limit family _ => family.byteLen
    | .dynamic declaration => declaration.byteLen
    | .level seals home => (seals.map Text.byteLen).sum + (home.map Text.byteLen).getD 0
    | _ => 0

end DeclaredLayer

/-- The running size of a declaration. -/
structure DeclarationBudget where
  nodes : Nat := 0
  text : Nat := 0
deriving DecidableEq, Repr

namespace DeclarationBudget

/-- A budget with one more layer charged to it. -/
def add {τ : Type} (budget : DeclarationBudget) (layer : DeclaredLayer τ) : DeclarationBudget where
  nodes := budget.nodes + layer.nodeShare
  text := budget.text + layer.textShare

/-- What a budget refuses at a node, the nodes before the text. -/
def check (budget : DeclarationBudget) (node : Text) : Except DeclarationError Unit :=
  if DeclarationBound.nodes.limit < budget.nodes then .error (tooLarge .nodes node)
  else if DeclarationBound.text.limit < budget.text then .error (tooLarge .text node)
  else .ok ()

/-- Neither size is past its bound. -/
def Within (budget : DeclarationBudget) : Prop :=
  budget.nodes ≤ DeclarationBound.nodes.limit ∧ budget.text ≤ DeclarationBound.text.limit

instance (budget : DeclarationBudget) : Decidable budget.Within :=
  inferInstanceAs (Decidable (_ ∧ _))

theorem check_within (budget : DeclarationBudget) (node : Text) (within : budget.Within) :
    budget.check node = .ok () := by
  rw [check, if_neg (Nat.not_lt.mpr within.1), if_neg (Nat.not_lt.mpr within.2)]

theorem check_past (budget : DeclarationBudget) (node : Text) (past : ¬ budget.Within) :
    ∃ bound, budget.check node = .error (tooLarge bound node) := by
  unfold check
  split
  · exact ⟨_, rfl⟩
  · rename_i nodes
    rw [if_pos (Nat.not_le.mp fun text => past ⟨Nat.not_lt.mp nodes, text⟩)]
    exact ⟨_, rfl⟩

end DeclarationBudget

namespace DeclaredSpace

/-- The nodes of the expanded tree, a shared one counted wherever it is used. -/
def nodes : DeclaredSpace → Nat := fold fun layer below => layer.nodeShare + below.sum

/-- The text of the expanded tree. -/
def text : DeclaredSpace → Nat := fold fun layer below => layer.textShare + below.sum

theorem nodes_node (space : DeclaredSpace) :
    space.nodes = space.layer.nodeShare + (space.enclosed.map nodes).sum :=
  fold_node _ space

theorem text_node (space : DeclaredSpace) :
    space.text = space.layer.textShare + (space.enclosed.map text).sum :=
  fold_node _ space

/-- Within the three bounds. -/
structure Bounded (space : DeclaredSpace) : Prop where
  depth : space.depth ≤ DeclarationBound.depth.limit
  nodes : space.nodes ≤ DeclarationBound.nodes.limit
  text : space.text ≤ DeclarationBound.text.limit

end DeclaredSpace

namespace DeclarationBudget

/-- A budget with whole trees charged to it. -/
def addAll (budget : DeclarationBudget) (spaces : List DeclaredSpace) : DeclarationBudget where
  nodes := budget.nodes + (spaces.map DeclaredSpace.nodes).sum
  text := budget.text + (spaces.map DeclaredSpace.text).sum

@[simp] theorem add_all_nil (budget : DeclarationBudget) : budget.addAll [] = budget := rfl

/-- A tree is charged as its layer and then what it encloses. -/
theorem add_all_cons (budget : DeclarationBudget) (space : DeclaredSpace)
    (rest : List DeclaredSpace) :
    budget.addAll (space :: rest) = ((budget.add space.layer).addAll space.enclosed).addAll rest := by
  simp only [addAll, add, List.map_cons, List.sum_cons, DeclaredSpace.nodes_node space,
    DeclaredSpace.text_node space, Nat.add_assoc]

theorem add_all_append (budget : DeclarationBudget) (spaces rest : List DeclaredSpace) :
    budget.addAll (spaces ++ rest) = (budget.addAll spaces).addAll rest := by
  simp only [addAll, List.map_append, List.sum_append, Nat.add_assoc]

/-- What is within the bounds with more charged to it was within them before. -/
theorem within_of_add_all (budget : DeclarationBudget) (spaces : List DeclaredSpace)
    (within : (budget.addAll spaces).Within) : budget.Within :=
  ⟨Nat.le_trans (Nat.le_add_right _ _) within.1, Nat.le_trans (Nat.le_add_right _ _) within.2⟩

end DeclarationBudget

/-- Where an anonymous node is named: under this, by a number. -/
def skolemPrefix : Text := "urn:ikigai:space:_:".toList

def skolemName (number : Nat) : Text := skolemPrefix ++ Nat.toDigits 10 number

/-- What measuring carries: the last number given to an anonymous node, the names met, and
the running size. -/
structure Measuring where
  skolem : Nat := 0
  seen : OrderedSet Text := .empty
  budget : DeclarationBudget := {}

namespace Measuring

/-- The name a refusal at a node gives, and, inside a named node met again, that node's. -/
def name (state : Measuring) (space : DeclaredSpace) (again : Option Text) :
    Text × Option Text × Measuring :=
  match again, space.layer.id with
  | some outer, _ => (outer, some outer, state)
  | none, some id =>
    if id ∈ state.seen then (id, some id, state)
    else (id, none, { state with seen := state.seen.insert id })
  | none, none =>
    (skolemName (state.skolem + 1), none, { state with skolem := state.skolem + 1 })

/-- A tree on the stack, its depth, and the named node met again that it lies under. -/
abbrev Item := DeclaredSpace × Nat × Option Text

/-- Measure one node. -/
def visit (state : Measuring) : Item → Except DeclarationError (List Item × Measuring)
  | (space, depth, again) =>
    let (node, again, state) := state.name space again
    if DeclarationBound.depth.limit < depth then .error (tooLarge .depth node)
    else
      let budget := state.budget.add space.layer
      match budget.check node with
      | .error error => .error error
      | .ok () =>
        .ok (space.enclosed.map fun inner => (inner, depth + 1, again), { state with budget })

/-- Naming a node leaves the size as it is. -/
@[simp] theorem name_budget (state : Measuring) (space : DeclaredSpace) (again : Option Text) :
    (state.name space again).2.2.budget = state.budget := by
  unfold name
  split
  · rfl
  · split <;> rfl
  · rfl

/-- The loop: a tree on the stack ranks by its nodes. -/
def loop : StackLoop Item Measuring DeclarationError where
  step := visit
  rank item := item.1.count
  falls := by
    rintro state ⟨space, depth, again⟩ pushed after went
    simp only [visit] at went
    split at went
    · cases went
    · split at went
      · cases went
      · cases went
        rw [List.map_map, DeclaredSpace.count_node space]
        exact Nat.lt_one_add_iff.mpr (Nat.le_refl _)

/-- What measuring comes to: a size, if the bounds hold, and else an error. -/
def Comes (budget : DeclarationBudget) (fits : Prop) : Except DeclarationError Measuring → Prop
  | .ok after => fits ∧ after.budget = budget
  | .error _ => ¬ fits

/-- What it takes for trees at one depth to be measured. -/
def Fits (depth : Nat) (spaces : List DeclaredSpace) (budget : DeclarationBudget) : Prop :=
  (∀ space ∈ spaces, depth + space.depth ≤ DeclarationBound.depth.limit + 1) ∧
    (budget.addAll spaces).Within

/-- One step on a node that is neither too deep nor past a size. -/
theorem visit_fits (state : Measuring) (space : DeclaredSpace) (depth : Nat)
    (again : Option Text) (shallow : depth ≤ DeclarationBound.depth.limit)
    (within : (state.budget.add space.layer).Within) :
    ∃ under after, loop.step state (space, depth, again) =
        .ok (space.enclosed.map fun inner => (inner, depth + 1, under), after) ∧
      after.budget = state.budget.add space.layer := by
  refine ⟨(state.name space again).2.1,
    { (state.name space again).2.2 with budget := state.budget.add space.layer }, ?_, rfl⟩
  simp only [loop, visit, name_budget]
  rw [if_neg (Nat.not_lt.mpr shallow), DeclarationBudget.check_within _ _ within]

/-- One step on any other node stops. -/
theorem visit_refuses (state : Measuring) (space : DeclaredSpace) (depth : Nat)
    (again : Option Text)
    (past : depth ≤ DeclarationBound.depth.limit → ¬ (state.budget.add space.layer).Within) :
    ∃ error, loop.step state (space, depth, again) = .error error := by
  simp only [loop, visit, name_budget]
  split
  · exact ⟨_, rfl⟩
  · rename_i shallow
    obtain ⟨bound, refused⟩ := DeclarationBudget.check_past _ (state.name space again).1
      (past (Nat.not_lt.mp shallow))
    rw [refused]
    exact ⟨_, rfl⟩

/-- A tree at a depth fits exactly when its layer does and what it encloses fits after it. -/
theorem fits_item (depth : Nat) (space : DeclaredSpace) (budget : DeclarationBudget) :
    Fits depth [space] budget ↔
      depth ≤ DeclarationBound.depth.limit ∧ (budget.add space.layer).Within ∧
        Fits (depth + 1) space.enclosed (budget.add space.layer) := by
  have limit : DeclarationBound.depth.limit = 48 := rfl
  have charged : budget.addAll [space] = (budget.add space.layer).addAll space.enclosed := by
    rw [DeclarationBudget.add_all_cons, DeclarationBudget.add_all_nil]
  simp only [Fits, List.forall_mem_singleton, charged]
  constructor
  · rintro ⟨deep, within⟩
    have positive : 1 ≤ space.depth := by
      rw [DeclaredSpace.depth_node]
      exact Nat.le_add_right 1 _
    refine ⟨by omega, DeclarationBudget.within_of_add_all _ _ within, ?_, within⟩
    have below := (DeclaredSpace.depth_le_iff space (48 - depth)).mp (by omega)
    intro inner inside
    have := below inner inside
    omega
  · rintro ⟨shallow, -, deep, within⟩
    refine ⟨?_, within⟩
    have below := (DeclaredSpace.depth_le_iff space (48 - depth)).mpr fun inner inside => by
      have := deep inner inside
      omega
    omega

/-- The trees on a stack fit exactly when the first does and the rest fit after it. -/
theorem fits_cons (depth : Nat) (space : DeclaredSpace) (rest : List DeclaredSpace)
    (budget : DeclarationBudget) :
    Fits depth (space :: rest) budget ↔
      Fits depth [space] budget ∧ Fits depth rest (budget.addAll [space]) := by
  have charged : budget.addAll (space :: rest) = (budget.addAll [space]).addAll rest :=
    budget.add_all_append [space] rest
  simp only [Fits, List.forall_mem_cons, charged]
  constructor
  · rintro ⟨⟨here, there⟩, within⟩
    exact ⟨⟨⟨here, nofun⟩, DeclarationBudget.within_of_add_all _ _ within⟩, there, within⟩
  · rintro ⟨⟨⟨here, -⟩, -⟩, there, within⟩
    exact ⟨⟨here, there⟩, within⟩

/-- Trees that stand on the stack are measured if they fit, and they are charged whole. -/
theorem run_all (spaces : List DeclaredSpace)
    (each : ∀ space ∈ spaces, ∀ (depth : Nat) (again : Option Text) (state : Measuring),
      Comes (state.budget.addAll [space]) (Fits depth [space] state.budget)
        (loop.run [(space, depth, again)] state))
    (depth : Nat) (again : Option Text) (state : Measuring) (within : state.budget.Within) :
    Comes (state.budget.addAll spaces) (Fits depth spaces state.budget)
      (loop.run (spaces.map fun space => (space, depth, again)) state) := by
  induction spaces generalizing state with
  | nil =>
    rw [List.map_nil, StackLoop.run_nil]
    exact ⟨⟨nofun, within⟩, rfl⟩
  | cons space rest ih =>
    have first := each space List.mem_cons_self depth again state
    rw [List.map_cons, StackLoop.run_split, fits_cons]
    cases went : loop.run [(space, depth, again)] state with
    | error error =>
      rw [went] at first
      exact fun fits => first fits.1
    | ok after =>
      rw [went] at first
      obtain ⟨fits, charged⟩ := first
      have further := ih (fun other inside => each other (List.mem_cons_of_mem _ inside)) after
        (charged ▸ fits.2)
      rw [charged, ← state.budget.add_all_append [space] rest] at further
      change Comes _ _ (loop.run _ after)
      cases ended : loop.run (rest.map fun space => (space, depth, again)) after with
      | error error =>
        rw [ended] at further
        exact fun both => further both.2
      | ok last =>
        rw [ended] at further
        exact ⟨⟨fits, further.1⟩, further.2⟩

/-- A tree is measured if it fits. -/
theorem run_tree (space : DeclaredSpace) :
    ∀ (depth : Nat) (again : Option Text) (state : Measuring),
      Comes (state.budget.addAll [space]) (Fits depth [space] state.budget)
        (loop.run [(space, depth, again)] state) := by
  induction space using DeclaredSpace.enclosed_induction with
  | step space ih =>
    intro depth again state
    rw [StackLoop.run_item, fits_item]
    by_cases admitted : depth ≤ DeclarationBound.depth.limit ∧ (state.budget.add space.layer).Within
    · obtain ⟨shallow, within⟩ := admitted
      obtain ⟨under, after, went, charged⟩ := visit_fits state space depth again shallow within
      have further := run_all space.enclosed ih (depth + 1) under after (charged ▸ within)
      rw [charged] at further
      have whole : state.budget.addAll [space] =
          (state.budget.add space.layer).addAll space.enclosed := by
        rw [DeclarationBudget.add_all_cons, DeclarationBudget.add_all_nil]
      rw [went, whole]
      change Comes _ _ (loop.run _ after)
      cases ended : loop.run (space.enclosed.map fun inner => (inner, depth + 1, under)) after with
      | error error =>
        rw [ended] at further
        exact fun fits => further fits.2.2
      | ok last =>
        rw [ended] at further
        exact ⟨⟨shallow, within, further.1⟩, further.2⟩
    · obtain ⟨error, refused⟩ := visit_refuses state space depth again fun shallow within =>
        admitted ⟨shallow, within⟩
      rw [refused]
      exact fun fits => admitted ⟨fits.1, fits.2.1⟩

end Measuring

/-- Check a tree against the three bounds. -/
def measure (tree : DeclaredSpace) : Except DeclarationError Unit :=
  (Measuring.loop.run [(tree, 1, none)] {}).map fun _ => ()

/-- The stack accepts exactly the trees within the three bounds. -/
theorem measure_iff (tree : DeclaredSpace) : measure tree = .ok () ↔ tree.Bounded := by
  have fits : Measuring.Fits 1 [tree] {} ↔ tree.Bounded := by
    simp only [Measuring.Fits, List.forall_mem_singleton, DeclarationBudget.addAll,
      DeclarationBudget.Within, List.map_cons, List.map_nil, List.sum_cons, List.sum_nil,
      Nat.zero_add, Nat.add_zero]
    constructor
    · rintro ⟨deep, nodes, text⟩
      exact ⟨by omega, nodes, text⟩
    · rintro ⟨deep, nodes, text⟩
      exact ⟨by omega, nodes, text⟩
  have comes := Measuring.run_tree tree 1 none {}
  rw [fits] at comes
  unfold measure
  cases went : Measuring.loop.run [(tree, 1, none)] {} with
  | error error =>
    rw [went] at comes
    exact ⟨nofun, fun bounded => absurd bounded comes⟩
  | ok after =>
    rw [went] at comes
    exact ⟨fun _ => comes.1, fun _ => rfl⟩

end Ikigai
