import Ikigai.DeclarationCells

/-!
# One arrangement for each name

The check of a tree's names enters a named node once and skips it where it is met again.
What it has entered by the end is all that occurs in the tree, so it accepts exactly the
trees in which a name stands for one arrangement wherever it occurs, however the tree is
shared.
-/

namespace Ikigai

namespace DeclaredSpace

/-- A node occurs in a tree: it is the tree, or occurs in what the tree encloses. -/
inductive Occurs (inner : DeclaredSpace) : DeclaredSpace → Prop where
  | here : Occurs inner inner
  | deeper (space next : DeclaredSpace) (enclosed : next ∈ space.enclosed)
      (within : Occurs inner next) : Occurs inner space

theorem Occurs.trans {inner middle outer : DeclaredSpace} (first : inner.Occurs middle)
    (second : middle.Occurs outer) : inner.Occurs outer := by
  induction second with
  | here => exact first
  | deeper space next enclosed within ih => exact .deeper space next enclosed ih

theorem occurs_iff (inner space : DeclaredSpace) :
    inner.Occurs space ↔ inner = space ∨ ∃ next ∈ space.enclosed, inner.Occurs next := by
  constructor
  · rintro (_ | ⟨_, next, enclosed, within⟩)
    · exact .inl rfl
    · exact .inr ⟨next, enclosed, within⟩
  · rintro (rfl | ⟨next, enclosed, within⟩)
    · exact .here
    · exact .deeper space next enclosed within

/-- A name is a claim: what occurs under one name is one arrangement. -/
def OneClaim (tree : DeclaredSpace) : Prop :=
  ∀ first second : DeclaredSpace, first.Occurs tree → second.Occurs tree →
    ∀ name, first.layer.id = some name → second.layer.id = some name → first = second

/-- What is enclosed has fewer nodes. -/
theorem count_enclosed_lt {space inner : DeclaredSpace} (enclosed : inner ∈ space.enclosed) :
    inner.count < space.count := by
  rw [count_node space]
  have counted := List.single_le_sum (fun _ _ => Nat.zero_le _) _
    (List.mem_map_of_mem (f := count) enclosed)
  omega

end DeclaredSpace

namespace Claimed

/-- Every named node that occurs in a tree was entered, as it occurs. -/
def Holds (first : Claimed) (tree : DeclaredSpace) : Prop :=
  ∀ inner : DeclaredSpace, inner.Occurs tree → ∀ name, inner.layer.id = some name →
    first.lookup name = some inner

/-- What was entered stays. -/
def Extends (first last : Claimed) : Prop :=
  ∀ name node, first.lookup name = some node → last.lookup name = some node

theorem Extends.trans {first middle last : Claimed} (early : first.Extends middle)
    (late : middle.Extends last) : first.Extends last :=
  fun name node entered => late name node (early name node entered)

theorem Holds.extended {first last : Claimed} {tree : DeclaredSpace} (holds : first.Holds tree)
    (further : first.Extends last) : last.Holds tree :=
  fun inner occurs name named => further name inner (holds inner occurs name named)

/-- Whatever was entered was gone through, unless it has as many nodes as a bound: what is
still open encloses what is visited. -/
def Settled (first : Claimed) (bound : Nat) : Prop :=
  ∀ name node, first.lookup name = some node → first.Holds node ∨ bound ≤ node.count

/-- Entering a node under a new name. -/
theorem extends_enter {first : Claimed} {name : Text} (node : DeclaredSpace)
    (fresh : first.lookup name = none) : Extends first ((name, node) :: first) := by
  intro other known entered
  have apart : other ≠ name := by
    rintro rfl
    rw [fresh] at entered
    cases entered
  rw [List.lookup_cons, beq_false_of_ne apart]
  exact entered

/-- What a visit leaves: what was entered stays, the trees are held, and what is new was gone
through. -/
structure Leaves (first : Claimed) (trees : List DeclaredSpace) (last : Claimed) : Prop where
  stays : first.Extends last
  holds : ∀ tree ∈ trees, last.Holds tree
  fresh : ∀ name node, last.lookup name = some node →
    first.lookup name = some node ∨ last.Holds node

theorem Leaves.settled {first last : Claimed} {trees : List DeclaredSpace} {bound : Nat}
    (leaves : first.Leaves trees last) (settled : first.Settled bound) : last.Settled bound := by
  intro name node entered
  rcases leaves.fresh name node entered with before | held
  · exact (settled name node before).imp_left fun held => held.extended leaves.stays
  · exact .inl held

/-- Trees that stand on the stack. -/
theorem run_all_leaves (bound : Nat) (trees : List DeclaredSpace)
    (each : ∀ tree ∈ trees, ∀ first last : Claimed, first.Settled bound →
      loop.run [tree] first = .ok last → first.Leaves [tree] last)
    (first last : Claimed) (settled : first.Settled bound)
    (went : loop.run trees first = .ok last) : first.Leaves trees last := by
  induction trees generalizing first with
  | nil =>
    rw [StackLoop.run_nil] at went
    cases went
    exact ⟨fun _ _ entered => entered, nofun, fun _ _ entered => .inl entered⟩
  | cons tree rest ih =>
    rw [StackLoop.run_split] at went
    cases here : loop.run [tree] first with
    | error error =>
      rw [here] at went
      cases went
    | ok middle =>
      rw [here] at went
      have early := each tree List.mem_cons_self first middle settled here
      have late := ih (fun other inside => each other (List.mem_cons_of_mem _ inside)) middle
        (early.settled settled) went
      refine ⟨early.stays.trans late.stays, ?_, ?_⟩
      · exact List.forall_mem_cons.mpr
          ⟨(early.holds tree List.mem_cons_self).extended late.stays, late.holds⟩
      · intro name node entered
        rcases late.fresh name node entered with before | held
        · exact (early.fresh name node before).imp_right fun held => held.extended late.stays
        · exact .inr held

/-- A node is held once it is entered and what it encloses is held. -/
theorem holds_node {first : Claimed} {node : DeclaredSpace}
    (own : ∀ name, node.layer.id = some name → first.lookup name = some node)
    (below : ∀ inner ∈ node.enclosed, first.Holds inner) : first.Holds node := by
  intro inner occurs name named
  rcases (DeclaredSpace.occurs_iff inner node).mp occurs with rfl | ⟨next, enclosed, within⟩
  · exact own name named
  · exact below next enclosed inner within name named

/-- A tree that is visited without a refusal is held by what was entered. -/
theorem run_leaves (tree : DeclaredSpace) :
    ∀ (bound : Nat) (first last : Claimed), tree.count < bound → first.Settled bound →
      loop.run [tree] first = .ok last → first.Leaves [tree] last := by
  induction tree using DeclaredSpace.enclosed_induction with
  | step tree ih =>
    intro bound first last smaller settled went
    rw [StackLoop.run_item] at went
    have below : ∀ first last : Claimed, first.Settled tree.count →
        loop.run tree.enclosed first = .ok last → first.Leaves tree.enclosed last :=
      fun first last => run_all_leaves tree.count tree.enclosed
        (fun inner enclosed first last settled =>
          ih inner enclosed tree.count first last (DeclaredSpace.count_enclosed_lt enclosed) settled)
        first last
    cases named : tree.layer.id with
    | none =>
      have visited : loop.step first tree = .ok (tree.enclosed, first) := by
        simp only [loop, visit, named]
      rw [visited] at went
      have leaves := below first last
        (fun name node entered => (settled name node entered).imp_right fun large => by omega) went
      refine ⟨leaves.stays, List.forall_mem_singleton.mpr (holds_node ?_ leaves.holds), leaves.fresh⟩
      intro name impossible
      rw [named] at impossible
      cases impossible
    | some id =>
      cases met : first.lookup id with
      | none =>
        have visited : loop.step first tree = .ok (tree.enclosed, (id, tree) :: first) := by
          simp only [loop, visit, named, met]
        rw [visited] at went
        have enters := extends_enter tree met
        have leaves := below ((id, tree) :: first) last (by
          intro name node entered
          rw [List.lookup_cons] at entered
          split at entered
          · cases entered
            exact .inr (Nat.le_refl _)
          · exact (settled name node entered).imp (fun held => held.extended enters)
              fun large => by omega) went
        have own : last.lookup id = some tree := leaves.stays id tree (by simp)
        have held : last.Holds tree := by
          refine holds_node (fun name known => ?_) leaves.holds
          rw [named] at known
          cases known
          exact own
        refine ⟨enters.trans leaves.stays, List.forall_mem_singleton.mpr held, ?_⟩
        intro name node entered
        rcases leaves.fresh name node entered with before | heldNode
        · rw [List.lookup_cons] at before
          split at before
          · cases before
            exact .inr held
          · exact .inl before
        · exact .inr heldNode
      | some earlier =>
        by_cases same : earlier = tree
        · have visited : loop.step first tree = .ok ([], first) := by
            simp only [loop, visit, named, met, if_pos same]
          rw [visited] at went
          change loop.run [] first = .ok last at went
          rw [StackLoop.run_nil] at went
          cases went
          refine ⟨fun _ _ entered => entered, List.forall_mem_singleton.mpr ?_,
            fun _ _ entered => .inl entered⟩
          -- an open node is larger than the tree, so the earlier one was gone through
          rcases settled id earlier met with held | large
          · exact same ▸ held
          · rw [same] at large
            omega
        · have refused : loop.step first tree = .error (claimedTwice id) := by
            simp only [loop, visit, named, met, if_neg same]
          rw [refused] at went
          cases went

/-- What was entered occurs in a tree of one claim a name, so nothing in the tree is
refused. -/
theorem run_accepts (root : DeclaredSpace) (one : root.OneClaim) (tree : DeclaredSpace) :
    tree.Occurs root → ∀ first : Claimed,
      (∀ name node, first.lookup name = some node →
        node.Occurs root ∧ node.layer.id = some name) →
      ∃ last, loop.run [tree] first = .ok last ∧
        ∀ name node, List.lookup name last = some node →
          node.Occurs root ∧ node.layer.id = some name := by
  induction tree using DeclaredSpace.enclosed_induction with
  | step tree ih =>
    intro occurs first inside
    have below : ∀ (trees : List DeclaredSpace), trees ⊆ tree.enclosed → ∀ first : Claimed,
        (∀ name node, first.lookup name = some node →
          node.Occurs root ∧ node.layer.id = some name) →
        ∃ last, loop.run trees first = .ok last ∧
          ∀ name node, List.lookup name last = some node →
            node.Occurs root ∧ node.layer.id = some name := by
      intro trees
      induction trees with
      | nil =>
        intro _ first inside
        exact ⟨first, StackLoop.run_nil _ _, inside⟩
      | cons next rest ihRest =>
        intro within first inside
        obtain ⟨middle, here, inside'⟩ := ih next (within List.mem_cons_self)
          (.trans (.deeper tree next (within List.mem_cons_self) .here) occurs) first inside
        obtain ⟨last, there, inside''⟩ := ihRest
          (fun _ later => within (List.mem_cons_of_mem _ later)) middle inside'
        refine ⟨last, ?_, inside''⟩
        rw [StackLoop.run_split, here]
        exact there
    rw [StackLoop.run_item]
    cases named : tree.layer.id with
    | none =>
      have visited : loop.step first tree = .ok (tree.enclosed, first) := by
        simp only [loop, visit, named]
      rw [visited]
      exact below tree.enclosed (List.Subset.refl _) first inside
    | some id =>
      cases met : first.lookup id with
      | none =>
        have visited : loop.step first tree = .ok (tree.enclosed, (id, tree) :: first) := by
          simp only [loop, visit, named, met]
        rw [visited]
        refine below tree.enclosed (List.Subset.refl _) _ fun name node entered => ?_
        rw [List.lookup_cons] at entered
        split at entered
        · rename_i same
          cases entered
          rw [eq_of_beq same]
          exact ⟨occurs, named⟩
        · exact inside name node entered
      | some earlier =>
        obtain ⟨occurs', named'⟩ := inside id earlier met
        have same := one earlier tree occurs' occurs id named' named
        have visited : loop.step first tree = .ok ([], first) := by
          simp only [loop, visit, named, met, if_pos same]
        rw [visited]
        exact ⟨first, StackLoop.run_nil _ _, inside⟩

end Claimed

/-- The check of names accepts exactly the trees in which each name is one claim and none is
a cell. -/
theorem claims_iff (tree : DeclaredSpace) :
    claims tree = .ok () ↔ tree.OneClaim ∧ tree.cellCollision = none := by
  have loops : (∃ last, Claimed.loop.run [tree] [] = .ok last) ↔ tree.OneClaim := by
    constructor
    · rintro ⟨last, went⟩
      have leaves := Claimed.run_leaves tree (tree.count + 1) [] last (Nat.lt_succ_self _) nofun went
      have held := leaves.holds tree List.mem_cons_self
      intro first second occurs occurs' name named named'
      exact Option.some.inj ((held first occurs name named).symm.trans
        (held second occurs' name named'))
    · intro one
      obtain ⟨last, went, -⟩ := Claimed.run_accepts tree one tree .here [] nofun
      exact ⟨last, went⟩
  unfold claims
  cases went : Claimed.loop.run [tree] [] with
  | error error =>
    refine ⟨nofun, fun both => ?_⟩
    obtain ⟨last, impossible⟩ := loops.mpr both.1
    rw [went] at impossible
    cases impossible
  | ok last =>
    have one := loops.mp ⟨last, went⟩
    cases collides : tree.cellCollision with
    | none => exact ⟨fun _ => ⟨one, rfl⟩, fun _ => rfl⟩
    | some name => exact ⟨nofun, fun both => nomatch both.2⟩

end Ikigai
