import Ikigai.OrderedSet

/-!
# Worklists

A depth-first search of a finite graph: a set of what was seen, and a stack of what is still
to be taken. A node is expanded when it is first taken, so cycles end. The measure is the
number of nodes that were not seen, and then the length of the stack. What the search
finds is exactly what is reachable.
-/

namespace Ikigai

/-- A graph whose successors all lie in one finite list of nodes. -/
structure FiniteGraph (α : Type) where
  nodes : List α
  next : α → List α
  inside : ∀ node, ∀ other ∈ next node, other ∈ nodes

namespace FiniteGraph

variable {α : Type} [LinearOrder α] (graph : FiniteGraph α)

/-- One edge. -/
def Step (node other : α) : Prop := other ∈ graph.next node

/-- Any number of edges. -/
def Reach : α → α → Prop := Relation.ReflTransGen graph.Step

/-- The nodes that were not seen. -/
def unseen (seen : OrderedSet α) : List α := graph.nodes.filter fun node => node ∉ seen

theorem unseen_insert_lt (seen : OrderedSet α) (node : α) (listed : node ∈ graph.nodes)
    (fresh : node ∉ seen) : (graph.unseen (seen.insert node)).length < (graph.unseen seen).length := by
  have within : graph.unseen (seen.insert node) =
      (graph.unseen seen).filter fun other => other ≠ node := by
    rw [unseen, unseen, List.filter_filter]
    apply List.filter_congr
    intro other _
    simp [not_or]
  rw [within]
  apply List.length_filter_lt_length_iff_exists.mpr
  exact ⟨node, List.mem_filter.mpr ⟨listed, by simpa using fresh⟩, by simp⟩

/-- A stack with the successors of a node on top, the last of them first. -/
def push (node : α) (stack : List α) : List α := (graph.next node).reverse ++ stack

omit [LinearOrder α] in
@[simp] theorem mem_push (node : α) (stack : List α) (other : α) :
    other ∈ graph.push node stack ↔ graph.Step node other ∨ other ∈ stack := by
  simp [push, Step]

/-- Search from a stack, its top first. -/
def search (seen : OrderedSet α) : (stack : List α) → (∀ node ∈ stack, node ∈ graph.nodes) →
    OrderedSet α
  | [], _ => seen
  | node :: stack, listed =>
    if _ : node ∈ seen then
      search seen stack fun other inside => listed other (List.mem_cons_of_mem _ inside)
    else
      search (seen.insert node) (graph.push node stack) fun other inside =>
        ((graph.mem_push node stack other).mp inside).elim (graph.inside node other)
          fun kept => listed other (List.mem_cons_of_mem _ kept)
termination_by stack => ((graph.unseen seen).length, stack.length)
decreasing_by
  · exact Prod.Lex.right _ (Nat.lt_succ_self _)
  · apply Prod.Lex.left
    exact graph.unseen_insert_lt seen node (listed node List.mem_cons_self) ‹_›

/-- All that is found from one node of the graph. -/
def found (node : α) : OrderedSet α :=
  if listed : graph.nodes.contains node = true then
    graph.search .empty [node] fun _ only =>
      List.mem_singleton.mp only ▸ List.contains_iff_mem.mp listed
  else .empty

variable {graph}

/-- What was seen stays seen. -/
theorem search_keeps {seen : OrderedSet α} {stack : List α}
    (listed : ∀ node ∈ stack, node ∈ graph.nodes) {node : α} (before : node ∈ seen) :
    node ∈ graph.search seen stack listed := by
  fun_induction search graph seen stack listed with
  | case1 => exact before
  | case2 seen first stack listed known _ ih => exact ih before
  | case3 seen first stack listed fresh _ ih =>
    apply ih
    exact (OrderedSet.mem_insert _ _ _).mpr (.inr before)

/-- What is on the stack is found. -/
theorem search_takes {seen : OrderedSet α} {stack : List α}
    (listed : ∀ node ∈ stack, node ∈ graph.nodes) {node : α} (waiting : node ∈ stack) :
    node ∈ graph.search seen stack listed := by
  fun_induction search graph seen stack listed with
  | case1 => cases waiting
  | case2 seen first stack listed known _ ih =>
    rcases List.mem_cons.mp waiting with rfl | later
    · exact search_keeps _ known
    · exact ih later
  | case3 seen first stack listed fresh _ ih =>
    rcases List.mem_cons.mp waiting with rfl | later
    · exact search_keeps _ ((OrderedSet.mem_insert _ _ _).mpr (.inl rfl))
    · exact ih ((graph.mem_push _ _ _).mpr (.inr later))

/-- Nothing is found that was not seen and is not reachable from the stack. -/
theorem search_sound {seen : OrderedSet α} {stack : List α}
    (listed : ∀ node ∈ stack, node ∈ graph.nodes) {node : α}
    (hit : node ∈ graph.search seen stack listed) :
    node ∈ seen ∨ ∃ start ∈ stack, graph.Reach start node := by
  fun_induction search graph seen stack listed with
  | case1 => exact .inl hit
  | case2 seen first stack listed known _ ih =>
    rcases ih hit with before | ⟨start, waiting, reach⟩
    · exact .inl before
    · exact .inr ⟨start, List.mem_cons_of_mem _ waiting, reach⟩
  | case3 seen first stack listed fresh _ ih =>
    rcases ih hit with inserted | ⟨start, waiting, reach⟩
    · rcases (OrderedSet.mem_insert _ _ _).mp inserted with rfl | before
      · exact .inr ⟨node, List.mem_cons_self, .refl⟩
      · exact .inl before
    · rcases (graph.mem_push _ _ _).mp waiting with step | kept
      · exact .inr ⟨first, List.mem_cons_self, .head step reach⟩
      · exact .inr ⟨start, List.mem_cons_of_mem _ kept, reach⟩

/-- The successors of what was seen were seen, or are on the stack. -/
def Frontier (graph : FiniteGraph α) (seen : OrderedSet α) (stack : List α) : Prop :=
  ∀ node ∈ seen, ∀ other, graph.Step node other → other ∈ seen ∨ other ∈ stack

/-- From such a frontier, what is found is closed under edges. -/
theorem search_closed {seen : OrderedSet α} {stack : List α}
    (listed : ∀ node ∈ stack, node ∈ graph.nodes) (frontier : graph.Frontier seen stack)
    {node other : α} (hit : node ∈ graph.search seen stack listed) (step : graph.Step node other) :
    other ∈ graph.search seen stack listed := by
  fun_induction search graph seen stack listed with
  | case1 => exact (frontier node hit other step).elim id nofun
  | case2 seen first stack listed known _ ih =>
    refine ih ?_ hit
    intro node before other step
    rcases frontier node before other step with before | waiting
    · exact .inl before
    · rcases List.mem_cons.mp waiting with rfl | later
      · exact .inl known
      · exact .inr later
  | case3 seen first stack listed fresh _ ih =>
    refine ih ?_ hit
    intro node inserted other step
    rw [OrderedSet.mem_insert, mem_push]
    rcases (OrderedSet.mem_insert _ _ _).mp inserted with rfl | before
    · exact .inr (.inl step)
    · rcases frontier node before other step with before | waiting
      · exact .inl (.inr before)
      · rcases List.mem_cons.mp waiting with rfl | later
        · exact .inl (.inl rfl)
        · exact .inr (.inr later)

/-- The search from one node finds what is reachable from it, and nothing else. -/
theorem mem_found {node : α} (listed : node ∈ graph.nodes) (other : α) :
    other ∈ graph.found node ↔ graph.Reach node other := by
  rw [found, dif_pos (List.contains_iff_mem.mpr listed)]
  constructor
  · intro hit
    rcases search_sound _ hit with none | ⟨start, only, reach⟩
    · cases none
    · exact List.mem_singleton.mp only ▸ reach
  · intro reach
    induction reach with
    | refl => exact search_takes _ List.mem_cons_self
    | tail _ step ih => exact search_closed _ nofun ih step

end FiniteGraph

end Ikigai
