import Mathlib

/-!
# Self-delimiting encodings

An encoding delimits itself when a reader who sees one value's bytes followed by
anything at all recovers both the value and what followed. Fixed-width injective
encodings do, length-prefixed strings do, and a sequence of tagged items does as
long as what follows the sequence cannot be read as one more item.

The values an encoding is trusted on are a predicate: a length written in eight
bytes delimits only strings whose length fits in eight bytes.
-/

namespace Ikigai.Framing

universe u v
variable {α : Type u} {β : Type v}

/-- Reading back a value and its suffix is unambiguous on the admitted values. -/
def Delimits (admitted : α → Prop) (encode : α → List β) : Prop :=
  ∀ (left right : α) (after after' : List β), admitted left → admitted right →
    encode left ++ after = encode right ++ after' → left = right ∧ after = after'

/-- Two concatenations whose first parts have one length split alike. -/
theorem split_of_width (first second after after' : List β)
    (width : first.length = second.length) (same : first ++ after = second ++ after') :
    first = second ∧ after = after' :=
  List.append_inj same width

/-- A fixed-width injective encoding delimits itself. -/
theorem Delimits.of_fixed_width (admitted : α → Prop) (encode : α → List β) (width : Nat)
    (fixed : ∀ value, (encode value).length = width)
    (injective : ∀ left right, admitted left → admitted right →
      encode left = encode right → left = right) :
    Delimits admitted encode := by
  intro left right after after' inLeft inRight same
  obtain ⟨sameValue, sameRest⟩ := split_of_width (encode left) (encode right) after after'
    (by rw [fixed, fixed]) same
  exact ⟨injective left right inLeft inRight sameValue, sameRest⟩

/-- A delimited length followed by that many items delimits the items. -/
theorem Delimits.of_length_prefix (fits : Nat → Prop) (count : Nat → List β)
    (counted : Delimits fits count) :
    Delimits (fun items : List β => fits items.length)
      (fun items => count items.length ++ items) := by
  intro left right after after' inLeft inRight same
  simp only [List.append_assoc] at same
  obtain ⟨sameLength, sameRest⟩ :=
    counted left.length right.length (left ++ after) (right ++ after') inLeft inRight same
  exact split_of_width left right after after' sameLength sameRest

/-- Delimiting survives an injective change of the value. -/
theorem Delimits.comap {γ : Type u} {admitted : α → Prop} {encode : α → List β}
    (delimits : Delimits admitted encode) (read : γ → α)
    (injective : ∀ left right, read left = read right → left = right) :
    Delimits (fun value => admitted (read value)) (fun value => encode (read value)) := by
  intro left right after after' inLeft inRight same
  obtain ⟨sameRead, sameRest⟩ :=
    delimits (read left) (read right) after after' inLeft inRight same
  exact ⟨injective left right sameRead, sameRest⟩

/-- A sequence of delimited items is recovered together with its suffix when no
suffix the caller writes can be mistaken for a further item. The induction peels
one item off each side; the mixed cases are what `distinct` excludes. -/
theorem Delimits.flatMap {admitted : α → Prop} {encode : α → List β}
    (delimits : Delimits admitted encode) (closing : List β → Prop)
    (distinct : ∀ (item : α) (after rest : List β), closing after →
      encode item ++ rest ≠ after)
    (left right : List α) (after after' : List β)
    (inLeft : ∀ item ∈ left, admitted item) (inRight : ∀ item ∈ right, admitted item)
    (closes : closing after) (closes' : closing after')
    (same : left.flatMap encode ++ after = right.flatMap encode ++ after') :
    left = right ∧ after = after' := by
  induction left generalizing right with
  | nil =>
    cases right with
    | nil => exact ⟨rfl, same⟩
    | cons item rest =>
      simp only [List.flatMap_nil, List.nil_append, List.flatMap_cons, List.append_assoc] at same
      exact absurd same.symm (distinct item after _ closes)
  | cons item rest ih =>
    cases right with
    | nil =>
      simp only [List.flatMap_nil, List.nil_append, List.flatMap_cons, List.append_assoc] at same
      exact absurd same (distinct item after' _ closes')
    | cons other rest' =>
      simp only [List.flatMap_cons, List.append_assoc] at same
      obtain ⟨sameItem, sameRest⟩ := delimits item other _ _
        (inLeft item (List.mem_cons_self ..)) (inRight other (List.mem_cons_self ..)) same
      obtain ⟨sameTail, sameAfter⟩ := ih rest'
        (fun i m => inLeft i (List.mem_cons_of_mem _ m))
        (fun i m => inRight i (List.mem_cons_of_mem _ m)) sameRest
      exact ⟨sameItem ▸ sameTail ▸ rfl, sameAfter⟩

/-- Reading back a value and its suffix is unambiguous wherever the two together are shorter
than a bound. -/
def Splits (bound : Nat) (encode : α → List β) : Prop :=
  ∀ (left right : α) (after after' : List β), (encode left ++ after).length < bound →
    encode left ++ after = encode right ++ after' → left = right ∧ after = after'

/-- An encoding that delimits what is short enough. -/
theorem Delimits.splits {admitted : α → Prop} {encode : α → List β}
    (delimits : Delimits admitted encode) (bound : Nat)
    (short : ∀ value, (encode value).length < bound → admitted value) : Splits bound encode := by
  intro left right after after' below same
  have below' := below
  rw [same] at below'
  rw [List.length_append] at below below'
  exact delimits left right after after' (short left (by omega)) (short right (by omega)) same

namespace Splits

variable {bound : Nat} {encode : α → List β}

/-- What is written first is read back. -/
theorem eq_of_same (splits : Splits bound encode) (left right : α)
    (below : (encode left).length < bound) (same : encode left = encode right) : left = right :=
  (splits left right [] [] (by rwa [List.append_nil]) (by rw [same])).1

/-- Two values one after the other. -/
theorem pair {γ : Type u} {further : γ → List β} (splits : Splits bound encode)
    (splits' : Splits bound further) :
    Splits bound fun values : α × γ => encode values.1 ++ further values.2 := by
  rintro ⟨left, left'⟩ ⟨right, right'⟩ after after' below same
  simp only [List.append_assoc] at below same
  obtain ⟨first, rest⟩ := splits left right _ _ below same
  have shorter : (further left' ++ after).length < bound := by
    rw [List.length_append] at below
    omega
  obtain ⟨second, suffix⟩ := splits' left' right' _ _ shorter rest
  exact ⟨by rw [first, second], suffix⟩

/-- Splitting survives an injective change of the value. -/
theorem comap {γ : Type v} (splits : Splits bound encode) (read : γ → α)
    (injective : Function.Injective read) : Splits bound fun value => encode (read value) := by
  intro left right after after' below same
  obtain ⟨sameRead, rest⟩ := splits (read left) (read right) after after' below same
  exact ⟨injective sameRead, rest⟩

/-- Items without a count, where there are as many on either side. -/
theorem items (splits : Splits bound encode) (left right : List α) (after after' : List β)
    (width : left.length = right.length) (below : (left.flatMap encode ++ after).length < bound)
    (same : left.flatMap encode ++ after = right.flatMap encode ++ after') :
    left = right ∧ after = after' := by
  induction left generalizing right with
  | nil =>
    cases right with
    | nil => exact ⟨rfl, same⟩
    | cons item rest => cases width
  | cons item rest ih =>
    cases right with
    | nil => cases width
    | cons other rest' =>
      simp only [List.flatMap_cons, List.append_assoc] at below same
      obtain ⟨first, further⟩ := splits item other _ _ below same
      have shorter : (rest.flatMap encode ++ after).length < bound := by
        rw [List.length_append] at below
        omega
      obtain ⟨tail, suffix⟩ := ih rest' (Nat.succ.inj width) shorter further
      exact ⟨by rw [first, tail], suffix⟩

/-- There are no more items than what they write, where each writes something. -/
theorem length_le_flat_map (writes : ∀ value, encode value ≠ []) (values : List α) :
    values.length ≤ (values.flatMap encode).length := by
  induction values with
  | nil => simp
  | cons value rest ih =>
    have some := List.length_pos_iff.mpr (writes value)
    simp only [List.flatMap_cons, List.length_append, List.length_cons]
    omega

/-- A count and that many items. -/
theorem counted {count : Nat → List β} (splits : Splits bound encode)
    (counts : Delimits (fun value => value < bound) count) (writes : ∀ value, encode value ≠ []) :
    Splits bound fun values : List α => count values.length ++ values.flatMap encode := by
  intro left right after after' below same
  have below' := below
  rw [same] at below'
  simp only [List.append_assoc] at below below' same
  simp only [List.length_append] at below below'
  have fewer := length_le_flat_map writes left
  have fewer' := length_le_flat_map writes right
  obtain ⟨width, rest⟩ := counts left.length right.length _ _ (by omega) (by omega) same
  exact splits.items left right after after' width (by rw [List.length_append]; omega) rest

/-- A part that is left out or opens with a tag, before what never opens with it. -/
theorem section_ {tag : β} (splits : Splits bound encode) (left right : Option α)
    (after after' : List β) (apart : after.head? ≠ some tag) (apart' : after'.head? ≠ some tag)
    (below : ((left.elim [] fun value => tag :: encode value) ++ after).length < bound)
    (same : (left.elim [] fun value => tag :: encode value) ++ after =
      (right.elim [] fun value => tag :: encode value) ++ after') :
    left = right ∧ after = after' := by
  cases left with
  | none =>
    cases right with
    | none => exact ⟨rfl, same⟩
    | some value =>
      have opens : after = tag :: (encode value ++ after') := same
      exact absurd (by rw [opens]; rfl) apart
  | some value =>
    cases right with
    | none =>
      have opens : tag :: (encode value ++ after) = after' := same
      exact absurd (by rw [← opens]; rfl) apart'
    | some other =>
      simp only [Option.elim_some, List.cons_append, List.cons.injEq, true_and] at same
      have shorter : (encode value ++ after).length < bound := by
        simp only [Option.elim_some, List.cons_append, List.length_cons] at below
        omega
      obtain ⟨first, rest⟩ := splits value other _ _ shorter same
      exact ⟨by rw [first], rest⟩

end Splits

end Ikigai.Framing
