import Mathlib

/-!
# Ordered sets

A set of ordered items, held as their strictly increasing list: iteration is in order,
an item is held once, and two sets of the same members are equal.
-/

namespace Ikigai

/-- A set of ordered items. -/
@[ext] structure OrderedSet (α : Type) [LinearOrder α] where
  items : List α
  increasing : items.Pairwise (· < ·)

namespace OrderedSet

variable {α : Type} [LinearOrder α]

instance : Membership α (OrderedSet α) := ⟨fun set item => item ∈ set.items⟩

instance (item : α) (set : OrderedSet α) : Decidable (item ∈ set) :=
  inferInstanceAs (Decidable (item ∈ set.items))

instance : DecidableEq (OrderedSet α) := fun set other =>
  decidable_of_iff (set.items = other.items) ⟨OrderedSet.ext, congrArg OrderedSet.items⟩

/-- A set's items are its members. -/
theorem mem_items (set : OrderedSet α) (item : α) : item ∈ set.items ↔ item ∈ set := Iff.rfl

/-- Put an item in its place in an increasing list, unless it is there. -/
def place (item : α) : List α → List α
  | [] => [item]
  | other :: rest =>
    if item < other then item :: other :: rest
    else if item = other then other :: rest
    else other :: place item rest

/-- Placing an item adds it and nothing else. -/
theorem mem_place (item other : α) (items : List α) :
    other ∈ place item items ↔ other = item ∨ other ∈ items := by
  induction items with
  | nil => simp [place]
  | cons first rest ih =>
    simp only [place]
    split
    · simp
    · split
      · rename_i same
        simp [same]
      · simp only [List.mem_cons, ih]
        exact or_left_comm

/-- Placing an item keeps the order. -/
theorem place_increasing (item : α) (items : List α) (increasing : items.Pairwise (· < ·)) :
    (place item items).Pairwise (· < ·) := by
  induction items with
  | nil => exact List.pairwise_singleton _ _
  | cons first rest ih =>
    obtain ⟨least, further⟩ := List.pairwise_cons.mp increasing
    simp only [place]
    split
    · rename_i less
      refine List.pairwise_cons.mpr ⟨?_, increasing⟩
      rintro other (_ | ⟨_, inside⟩)
      · exact less
      · exact less.trans (least other inside)
    · split
      · exact increasing
      · rename_i notLess apart
        refine List.pairwise_cons.mpr ⟨?_, ih further⟩
        intro other inside
        rcases (mem_place item other rest).mp inside with rfl | inside
        · exact lt_of_le_of_ne (not_lt.mp notLess) (Ne.symm apart)
        · exact least other inside

def empty : OrderedSet α := ⟨[], List.Pairwise.nil⟩

def insert (set : OrderedSet α) (item : α) : OrderedSet α :=
  ⟨place item set.items, place_increasing item set.items set.increasing⟩

/-- Insert items one by one. -/
def extend (set : OrderedSet α) (items : List α) : OrderedSet α := items.foldl insert set

def ofList (items : List α) : OrderedSet α := empty.extend items

def filter (set : OrderedSet α) (keep : α → Bool) : OrderedSet α :=
  ⟨set.items.filter keep, set.increasing.filter keep⟩

/-- Nothing is in the empty set. -/
@[simp] theorem mem_empty (item : α) : item ∈ (empty : OrderedSet α) ↔ False :=
  ⟨List.not_mem_nil, False.elim⟩

/-- An inserted item is in the set, beside what was. -/
@[simp] theorem mem_insert (set : OrderedSet α) (item other : α) :
    other ∈ set.insert item ↔ other = item ∨ other ∈ set :=
  mem_place item other set.items

/-- So are items that a set is extended by. -/
@[simp] theorem mem_extend (set : OrderedSet α) (items : List α) (item : α) :
    item ∈ set.extend items ↔ item ∈ set ∨ item ∈ items := by
  induction items generalizing set with
  | nil => simp [extend]
  | cons first rest ih =>
    have further := ih (set.insert first)
    rw [extend] at further ⊢
    rw [List.foldl_cons, further, mem_insert, List.mem_cons]
    tauto

/-- A set made of a list has the list's members. -/
@[simp] theorem mem_of_list (items : List α) (item : α) :
    item ∈ ofList items ↔ item ∈ items := by
  simp [ofList]

/-- A set filtered keeps the members that pass. -/
@[simp] theorem mem_filter (set : OrderedSet α) (keep : α → Bool) (item : α) :
    item ∈ set.filter keep ↔ item ∈ set ∧ keep item = true :=
  List.mem_filter

/-- Sets of the same members are equal. -/
theorem eq_of_mem (set other : OrderedSet α) (same : ∀ item, item ∈ set ↔ item ∈ other) :
    set = other := by
  apply OrderedSet.ext
  have perm : set.items.Perm other.items := by
    rw [List.perm_ext_iff_of_nodup (set.increasing.imp fun less => less.ne)
      (other.increasing.imp fun less => less.ne)]
    exact same
  exact perm.eq_of_pairwise (fun _ _ _ _ less more => absurd less more.asymm) set.increasing
    other.increasing

end OrderedSet

end Ikigai
