import Ikigai.ContractContent

/-!
# Contract identity

Two contracts feed the same bytes exactly when they have one id and say the same, but for
one thing. Which inputs are read as a body and which are fixed is fed by name, apart from
the inputs, so contracts that share out the same names among inputs differently are one
contract to the digest.
-/

namespace Ikigai

open Hashing

/-- Of a sorted list whose order tells its items apart, each is kept once. -/
theorem drop_repeats_once {α : Type} [DecidableEq α] (le : α → α → Prop) (items : List α)
    (sorted : items.Pairwise le)
    (apart : ∀ item ∈ items, ∀ other ∈ items, le item other → le other item → item = other) :
    (dropRepeats items).Pairwise le ∧ (dropRepeats items).Nodup := by
  fun_induction dropRepeats items with
  | case1 => exact ⟨.nil, .nil⟩
  | case2 item => exact ⟨List.pairwise_singleton _ _, List.nodup_singleton _⟩
  | case3 item rest ih =>
    rw [List.pairwise_cons] at sorted
    exact ih sorted.2 fun one member other member' =>
      apart one (List.mem_cons_of_mem _ member) other (List.mem_cons_of_mem _ member')
  | case4 first second rest differ ih =>
    rw [List.pairwise_cons] at sorted
    obtain ⟨least, further⟩ := sorted
    obtain ⟨ordered, once⟩ := ih further fun one member other member' =>
      apart one (List.mem_cons_of_mem _ member) other (List.mem_cons_of_mem _ member')
    constructor
    · refine List.pairwise_cons.mpr ⟨?_, ordered⟩
      intro other member
      exact least other ((ActionSpec.mem_drop_repeats _ _).mp member)
    · refine List.nodup_cons.mpr ⟨?_, once⟩
      intro member
      rcases List.mem_cons.mp ((ActionSpec.mem_drop_repeats _ _).mp member) with same | later
      · exact differ same
      · have ahead := least second List.mem_cons_self
        have behind := (List.pairwise_cons.mp further).1 first later
        exact differ (apart first List.mem_cons_self second
          (List.mem_cons_of_mem _ List.mem_cons_self) ahead behind)

namespace ArgSpec

/-- The order of what the first form feeds. -/
def keyCompare : ArgSpec → ArgSpec → Ordering :=
  compareLex (compareOn ArgSpec.name) <| compareLex (compareOn ArgSpec.summary) <|
    compareLex (compareOn ArgSpec.required) <|
    compareLex (compareOn fun input => (input.source = .binding : Bool)) <|
    compareLex (compareOn ArgSpec.class) <| compareLex (compareOn ArgSpec.default)
      (compareOn ArgSpec.oneOf)

instance : Std.TransOrd Text := inferInstanceAs (Std.TransOrd (List Char))

instance : Std.LawfulEqOrd Text := inferInstanceAs (Std.LawfulEqOrd (List Char))

instance : Std.TransCmp keyCompare := by
  unfold keyCompare
  infer_instance

theorem key_le_iff (left right : ArgSpec) :
    keyLe left right = true ↔ (keyCompare left right).isLE = true := by
  have shape : keyLe left right = (keyCompare left right != .gt) := rfl
  rw [shape, bne_iff_ne, Ordering.isLE_iff_ne_gt]

theorem key_le_trans (first second third : ArgSpec) (ahead : keyLe first second = true)
    (behind : keyLe second third = true) : keyLe first third = true := by
  rw [key_le_iff] at ahead behind ⊢
  exact Std.TransCmp.isLE_trans ahead behind

theorem key_le_total (left right : ArgSpec) : (keyLe left right || keyLe right left) = true := by
  rw [Bool.or_eq_true, key_le_iff, key_le_iff]
  rcases ordered : keyCompare left right with _ | _ | _
  · exact .inl rfl
  · exact .inl rfl
  · right
    have swapped : keyCompare right left = (keyCompare left right).swap :=
      Std.OrientedCmp.eq_swap
    rw [swapped, ordered]
    rfl

/-- The order tells apart what the first form feeds. -/
theorem key_of_le (left right : ArgSpec) (ahead : keyLe left right = true)
    (behind : keyLe right left = true) :
    left.name = right.name ∧ left.summary = right.summary ∧ left.required = right.required ∧
      left.source = right.source ∧ left.class = right.class ∧ left.default = right.default ∧
      left.oneOf = right.oneOf := by
  rw [key_le_iff] at ahead behind
  have same := Std.OrientedCmp.isLE_antisymm ahead behind
  simp only [keyCompare, compareLex, compareOn, Ordering.then_eq_eq,
    Std.LawfulEqOrd.compare_eq_iff_eq] at same
  obtain ⟨name, summary, required, source, declared, default, values⟩ := same
  refine ⟨name, summary, required, ?_, declared, default, values⟩
  cases here : left.source <;> cases there : right.source <;> simp [here, there] at source ⊢

/-- Whether an input says more is part of its content. -/
theorem uses_v2_content (input : ArgSpec) : input.content.usesV2 = input.usesV2 := by
  simp only [usesV2, content, isEnumerated, of_list_is_empty, List.isEmpty_map]
  cases input.enumerated <;> cases input.oneOf.isEmpty <;> rfl

/-- An input that says no more is sorted by what it is. -/
theorem canonical_of_plain (input : ArgSpec) (plain : input.usesV2 = false) :
    input.canonicalInput = input.content := by
  simp only [usesV2, Bool.or_eq_false_iff, Bool.not_eq_false', List.isEmpty_iff,
    Option.isSome_eq_false_iff, Option.isNone_iff_eq_none] at plain
  obtain ⟨⟨⟨⟨⟨⟨needs, _⟩, values⟩, examples⟩, _⟩, _⟩, _⟩ := plain
  simp only [canonicalInput, content, needs, values, examples, List.map_nil]
  rfl

/-- Inputs that say no more are what the first form feeds of them. -/
theorem content_of_key (left right : ArgSpec) (plain : left.usesV2 = false)
    (plain' : right.usesV2 = false) (ahead : keyLe left.content right.content = true)
    (behind : keyLe right.content left.content = true) : left.content = right.content := by
  obtain ⟨name, summary, required, source, declared, default, values⟩ :=
    key_of_le _ _ ahead behind
  have outlines : left.outline = right.outline := by
    refine outline_of_key_v1 left right plain plain' ?_
    have sets : OrderedSet.ofList left.oneOf = OrderedSet.ofList right.oneOf :=
      OrderedSet.ext values
    simp only [content] at name summary required source declared default
    simp only [keyV1, name, summary, required, source, declared, default, sets]
  have said : ∀ input : ArgSpec, input.usesV2 = false → input.outline = input.content := by
    intro input none
    simp only [usesV2, Bool.or_eq_false_iff, Option.isSome_eq_false_iff,
      Option.isNone_iff_eq_none] at none
    exact input.outline_eq none.1.2 none.2
  rw [← said left plain, ← said right plain', outlines]

end ArgSpec

namespace ActionSpec

/-- Contracts of one content are fed in one form. -/
theorem uses_v2_of_content (left right : ActionSpec) (same : SameContent left right) :
    left.usesV2 = right.usesV2 := by
  have failures : decide (left.failures ≠ .unstated) = decide (right.failures ≠ .unstated) := by
    have classes := same.failures
    cases here : left.failures <;> cases there : right.failures <;>
      simp [here, there, Failures.classes] at classes ⊢
  have groups : left.groups.isEmpty = right.groups.isEmpty := by
    have shown := same.groups
    cases here : left.groups with
    | nil =>
      cases there : right.groups with
      | nil => rfl
      | cons group rest =>
        rw [here, there] at shown
        exact absurd ((shown group.content).mpr List.mem_cons_self) List.not_mem_nil
    | cons group rest =>
      cases there : right.groups with
      | nil =>
        rw [here, there] at shown
        exact absurd ((shown group.content).mp List.mem_cons_self) List.not_mem_nil
      | cons => rfl
  have half : ∀ one other : ActionSpec, SameContent one other →
      one.inputs.any ArgSpec.usesV2 = true → other.inputs.any ArgSpec.usesV2 = true := by
    intro one other alike some
    obtain ⟨input, member, uses⟩ := List.any_eq_true.mp some
    obtain ⟨input', member', shown⟩ :=
      List.mem_map.mp ((alike.inputs input.content).mp (List.mem_map_of_mem member))
    refine List.any_eq_true.mpr ⟨input', member', ?_⟩
    rw [← input'.uses_v2_content, shown, input.uses_v2_content, uses]
  have inputs : left.inputs.any ArgSpec.usesV2 = right.inputs.any ArgSpec.usesV2 :=
    Bool.eq_iff_iff.mpr ⟨half left right same, half right left same.symm⟩
  rw [usesV2, usesV2, failures, same.existenceSensitive, groups, same.arguments,
    same.outputFrom, inputs]

/-- Contracts of one content that say no more feed their inputs alike. -/
theorem inputs_v1_of_content (left right : ActionSpec) (same : SameContent left right)
    (plain : ∀ input ∈ left.inputs, input.usesV2 = false)
    (plain' : ∀ input ∈ right.inputs, input.usesV2 = false) : left.inputsV1 = right.inputsV1 := by
  have canonical : ∀ spec : ActionSpec, (∀ input ∈ spec.inputs, input.usesV2 = false) →
      spec.inputs.map ArgSpec.canonicalInput = spec.inputs.map ArgSpec.content :=
    fun spec none => List.map_congr_left fun input member =>
      input.canonical_of_plain (none input member)
  have members : ∀ spec : ActionSpec, (∀ input ∈ spec.inputs, input.usesV2 = false) →
      ∀ face, face ∈ spec.inputsV1 ↔ face ∈ spec.inputs.map ArgSpec.content := by
    intro spec none face
    rw [inputsV1, mem_drop_repeats, List.mem_mergeSort, canonical spec none]
  have apart : ∀ one other : ActionSpec, (∀ input ∈ one.inputs, input.usesV2 = false) →
      (∀ input ∈ other.inputs, input.usesV2 = false) →
      ∀ face ∈ one.inputs.map ArgSpec.content, ∀ face' ∈ other.inputs.map ArgSpec.content,
        ArgSpec.keyLe face face' = true → ArgSpec.keyLe face' face = true → face = face' := by
    intro one other none none' face member face' member' ahead behind
    obtain ⟨input, inside, rfl⟩ := List.mem_map.mp member
    obtain ⟨input', inside', rfl⟩ := List.mem_map.mp member'
    exact ArgSpec.content_of_key input input' (none input inside) (none' input' inside') ahead
      behind
  have listed : ∀ spec : ActionSpec, (∀ input ∈ spec.inputs, input.usesV2 = false) →
      spec.inputsV1.Pairwise (fun one other => ArgSpec.keyLe one other = true) ∧
        spec.inputsV1.Nodup := by
    intro spec none
    refine drop_repeats_once _ _
      (List.pairwise_mergeSort ArgSpec.key_le_trans ArgSpec.key_le_total _) ?_
    intro face member face' member'
    rw [List.mem_mergeSort, canonical spec none] at member member'
    exact apart spec spec none none face member face' member'
  obtain ⟨ordered, once⟩ := listed left plain
  obtain ⟨ordered', once'⟩ := listed right plain'
  refine List.Perm.eq_of_pairwise ?_ ordered ordered' ?_
  · intro face face' member member'
    exact apart left right plain plain' face ((members left plain face).mp member) face'
      ((members right plain' face').mp member')
  · rw [List.perm_ext_iff_of_nodup once once']
    intro face
    rw [members left plain, members right plain', same.inputs]

/-- What is said of the inputs with it is said apart from them too. -/
theorem outline_of_content (left right : ActionSpec) (same : SameContent left right) :
    SameOutline left right := by
  have shown : ∀ {β : Type} (look : ArgSpec → β),
      (∀ input : ArgSpec, look input.content = look input) → ∀ face,
        face ∈ left.inputs.map look ↔ face ∈ right.inputs.map look := by
    intro β look kept face
    have half : ∀ one other : ActionSpec, SameContent one other →
        face ∈ one.inputs.map look → face ∈ other.inputs.map look := by
      intro one other alike member
      obtain ⟨input, inside, rfl⟩ := List.mem_map.mp member
      obtain ⟨input', inside', content⟩ :=
        List.mem_map.mp ((alike.inputs input.content).mp (List.mem_map_of_mem inside))
      exact List.mem_map.mpr ⟨input', inside', by rw [← kept input', content, kept]⟩
    exact ⟨half left right same, half right left same.symm⟩
  have outlines := shown ArgSpec.outline fun input => by
    rw [← ArgSpec.key_v2_outline, ← ArgSpec.key_v2_outline]
    congr 1
    simp only [ArgSpec.keyV2, ArgSpec.keyV1, ArgSpec.content, ArgSpec.isEnumerated, ofList_items,
      ArgSpec.of_list_is_empty, Bool.or_assoc, Bool.or_self, List.map_map]
    congr 1
    refine List.map_congr_left fun value _ => ?_
    simp only [ArgSpec.noteKey, Function.comp_apply, ValueNote.content, ofList_items]
  have readers := shown (fun input => (input.readsBody, input.name)) fun _ => rfl
  have fixed := shown (fun input => input.fixed.map fun value => input.name ++ '\x00' :: value)
    fun _ => rfl
  refine ⟨⟨same.verb, same.summary, outlines, same.outputs, same.requires, same.groups,
    same.arguments, same.outputFrom, same.failures, same.existenceSensitive⟩, ?_, ?_⟩
  · apply OrderedSet.eq_of_mem
    intro name
    have told : ∀ spec : ActionSpec, name ∈ spec.readers ↔
        (true, name) ∈ spec.inputs.map fun input => (input.readsBody, input.name) := by
      intro spec
      simp [ActionSpec.readers, and_assoc]
    rw [OrderedSet.mem_of_list, OrderedSet.mem_of_list, told, told, readers]
  · apply OrderedSet.eq_of_mem
    intro pair
    have told : ∀ spec : ActionSpec, pair ∈ spec.fixedPairs ↔
        some pair ∈ spec.inputs.map fun input =>
          input.fixed.map fun value => input.name ++ '\x00' :: value := by
      intro spec
      rw [fixedPairs, List.mem_filterMap, List.mem_map]
    rw [OrderedSet.mem_of_list, OrderedSet.mem_of_list, told, told, fixed]

/-- Contracts of one content feed the same bytes. -/
theorem contract_bytes_of_content (left right : ActionSpec) (id : Text)
    (short : (left.contractBytes id).length < 2 ^ 64) (same : SameContent left right) :
    left.contractBytes id = right.contractBytes id := by
  have uses := uses_v2_of_content left right same
  cases form : left.usesV2 with
  | true =>
    rw [form] at uses
    simp only [contractBytes, form, ← uses, if_true] at short ⊢
    exact feed_v2_of_outline left right id short (outline_of_content left right same)
  | false =>
    rw [form] at uses
    have plain : ∀ spec : ActionSpec, spec.usesV2 = false →
        ∀ input ∈ spec.inputs, input.usesV2 = false := by
      intro spec none input member
      simp only [usesV2, Bool.or_eq_false_iff, List.any_eq_false] at none
      simpa using none.2 input member
    have inputs := inputs_v1_of_content left right same (plain left form) (plain right uses.symm)
    have outputs : feedSet left.outputs = feedSet right.outputs :=
      congrArg feedSorted same.outputs
    have requires_ : feedSet left.requires = feedSet right.requires :=
      congrArg feedSorted same.requires
    simp only [contractBytes, form, ← uses, Bool.false_eq_true, if_false, feedV1, inputs,
      same.verb, same.summary, outputs, requires_]

/-- What is asked of two contracts' bytes: they are the same exactly when the contracts are,
no form reads as the other, and no part of a tail as another. -/
structure IdentityInjective (left right : ActionSpec) (id id' : Text) : Prop where
  exact : left.contractBytes id = right.contractBytes id' ↔ id = id' ∧ SameContent left right
  forms : left.contractBytes id = right.contractBytes id' → left.usesV2 = right.usesV2
  tails : left.contractBytes id = right.contractBytes id' →
    left.failures.classes.map List.toFinset = right.failures.classes.map List.toFinset ∧
      left.existenceSensitive = right.existenceSensitive ∧
      OrderedSet.ofList left.readers = OrderedSet.ofList right.readers ∧
      OrderedSet.ofList left.fixedPairs = OrderedSet.ofList right.fixedPairs

/-- Two contracts that read the same names as a body and fix the same strings of a name, a
NUL and a value, share them out among their inputs differently, and differ in nothing else. -/
def SharedOut (left right : ActionSpec) : Prop := SameOutline left right ∧ ¬SameContent left right

/-- Contracts are told apart by their bytes unless they share out the same names. -/
theorem identity_injective_iff (left right : ActionSpec) (id id' : Text)
    (short : (left.contractBytes id).length < 2 ^ 64) :
    IdentityInjective left right id id' ↔ ¬(id = id' ∧ SharedOut left right) := by
  constructor
  · rintro injective ⟨rfl, outline, differ⟩
    have bytes := contract_bytes_of_outline left right id short outline differ
    exact differ (injective.exact.mp bytes).2
  · intro told
    refine ⟨⟨?_, ?_⟩, forms_apart left right id id' short, ?_⟩
    · intro same
      obtain ⟨ids, outline⟩ := contract_bytes_same left right id id' short same
      refine ⟨ids, ?_⟩
      by_contra differ
      exact told ⟨ids, outline, differ⟩
    · rintro ⟨rfl, same⟩
      exact contract_bytes_of_content left right id short same
    · intro same
      obtain ⟨_, outline⟩ := contract_bytes_same left right id id' short same
      exact ⟨outline.alike.failures, outline.alike.existenceSensitive, outline.readers,
        outline.fixedPairs⟩

end ActionSpec

namespace SharedNameExample

/-- One input is called what another is called with a NUL and a letter behind it. -/
def longName : ActionSpec where
  verb := .source
  inputs := [{ name := ['a', '\x00', 'b'], fixed := some ['c'] }, { name := ['a'] }]

def longValue : ActionSpec where
  verb := .source
  inputs := [{ name := ['a', '\x00', 'b'] }, { name := ['a'], fixed := some ['b', '\x00', 'c'] }]

/-- Two contracts that fix different inputs to different values feed the same bytes. -/
theorem shared_names_collide : longName.contractBytes [] = longValue.contractBytes [] ∧
    ¬ActionSpec.SameContent longName longValue ∧
      ¬ActionSpec.IdentityInjective longName longValue [] [] := by
  have bytes : longName.contractBytes [] = longValue.contractBytes [] := by rfl
  have differ : ¬ActionSpec.SameContent longName longValue := by
    intro same
    have inside : (⟨['a', '\x00', 'b'], [], true, .argument, none, none, [], false, [], [], none,
        [], false, some ['c']⟩ : ArgSpec) ∈ longName.inputs.map ArgSpec.content := by
      decide
    have outside : (⟨['a', '\x00', 'b'], [], true, .argument, none, none, [], false, [], [], none,
        [], false, some ['c']⟩ : ArgSpec) ∉ longValue.inputs.map ArgSpec.content := by
      decide
    exact outside ((same.inputs _).mp inside)
  exact ⟨bytes, differ, fun injective => differ (injective.exact.mp bytes).2⟩

def plain : ActionSpec where
  verb := .source
  inputs := [{ name := ['a'] }]

theorem plain_told_apart : ActionSpec.IdentityInjective plain plain ['x'] ['y'] :=
  (ActionSpec.identity_injective_iff plain plain ['x'] ['y'] (by with_unfolding_all decide)).mpr
    fun same => absurd same.1 (by decide)

end SharedNameExample

end Ikigai
