import Ikigai.Contract

/-!
# What a digest is taken of

The bytes a contract's digest is taken of determine all that the catalog writes on the
contract's nodes, with one exception: which inputs are read as a body and which are fixed
is fed apart from the inputs, by name. Two contracts that differ in nothing else, with the
same names read and the same strings of a name, a NUL and a value, feed the same bytes.
-/

namespace Ikigai

open Hashing Framing

def ValueNote.content (note : ValueNote) : ValueNote :=
  { note with
    tags := (OrderedSet.ofList note.tags).items
    needs := (OrderedSet.ofList note.needs).items }

/-- All that is said of an input, its sets sorted. -/
def ArgSpec.content (input : ArgSpec) : ArgSpec :=
  { input with
    oneOf := (OrderedSet.ofList input.oneOf).items
    enumerated := input.isEnumerated
    examples := (OrderedSet.ofList input.examples).items
    needs := (OrderedSet.ofList input.needs).items
    values := input.values.map fun value => (value.1, value.2.content) }

/-- All but whether an input is read as a body or fixed. -/
def ArgSpec.outline (input : ArgSpec) : ArgSpec :=
  { input.content with readsBody := false, fixed := none }

def InputGroup.content (group : InputGroup) : InputGroup :=
  { group with members := (OrderedSet.ofList group.members).items }

namespace ActionSpec

/-- Contracts that say the same, their inputs looked at through `shown`. -/
structure Alike (shown : ArgSpec → ArgSpec) (left right : ActionSpec) : Prop where
  verb : left.verb = right.verb
  summary : left.summary = right.summary
  inputs : ∀ input, input ∈ left.inputs.map shown ↔ input ∈ right.inputs.map shown
  outputs : OrderedSet.ofList left.outputs = OrderedSet.ofList right.outputs
  requires : OrderedSet.ofList left.requires = OrderedSet.ofList right.requires
  groups : ∀ group, group ∈ left.groups.map InputGroup.content ↔
    group ∈ right.groups.map InputGroup.content
  arguments : left.arguments = right.arguments
  outputFrom : left.outputFrom = right.outputFrom
  failures : left.failures.classes.map List.toFinset = right.failures.classes.map List.toFinset
  existenceSensitive : left.existenceSensitive = right.existenceSensitive

/-- Being alike does not depend on which contract is called the first. -/
theorem Alike.symm {shown : ArgSpec → ArgSpec} {left right : ActionSpec}
    (alike : Alike shown left right) : Alike shown right left where
  verb := alike.verb.symm
  summary := alike.summary.symm
  inputs := fun face => (alike.inputs face).symm
  outputs := alike.outputs.symm
  requires := alike.requires.symm
  groups := fun group => (alike.groups group).symm
  arguments := alike.arguments.symm
  outputFrom := alike.outputFrom.symm
  failures := alike.failures.symm
  existenceSensitive := alike.existenceSensitive.symm

/-- Contracts of one content. -/
def SameContent (left right : ActionSpec) : Prop := Alike ArgSpec.content left right

/-- Contracts that differ at most in which of their inputs are read as a body or fixed. -/
structure SameOutline (left right : ActionSpec) : Prop where
  alike : Alike ArgSpec.outline left right
  readers : OrderedSet.ofList left.readers = OrderedSet.ofList right.readers
  fixedPairs : OrderedSet.ofList left.fixedPairs = OrderedSet.ofList right.fixedPairs

end ActionSpec

/-- A set made of a set's own items, in their order, is that set. -/
theorem ofList_items {α : Type} [LinearOrder α] (items : List α) :
    OrderedSet.ofList (OrderedSet.ofList items).items = OrderedSet.ofList items := by
  apply OrderedSet.eq_of_mem
  intro item
  rw [OrderedSet.mem_of_list, OrderedSet.mem_items]

/-- A flag's byte can be split off whatever follows it. -/
theorem feed_bool_splits : Splits (2 ^ 64) fun flag : Bool => feedU8 (if flag then 1 else 0) :=
  feed_u8_splits.comap (fun flag : Bool => if flag then 1 else 0) (by decide)

/-- So can the byte of an input's source. -/
theorem feed_source_splits : Splits (2 ^ 64) fun source => feedU8 (ArgSpec.sourceByte source) :=
  feed_u8_splits.comap ArgSpec.sourceByte (by
    intro left right same
    cases left <;> cases right <;> first | rfl | cases same)

namespace ArgSpec

/-- What the first form feeds of an input. -/
def keyV1 (input : ArgSpec) :
    (((((Text × Text) × Bool) × InputSource) × Option Text) × Option Text) × OrderedSet Text :=
  ((((((input.name, input.summary), input.required), input.source), input.class), input.default),
    OrderedSet.ofList input.oneOf)

/-- How the first form feeds it. -/
def feedKeyV1 (key : (((((Text × Text) × Bool) × InputSource) × Option Text) × Option Text) ×
    OrderedSet Text) : List UInt8 :=
  feedStr key.1.1.1.1.1.1 ++ feedStr key.1.1.1.1.1.2 ++
    feedU8 (if key.1.1.1.1.2 then 1 else 0) ++ feedU8 (sourceByte key.1.1.1.2) ++
    feedOption key.1.1.2 ++ feedOption key.1.2 ++ feedSorted key.2

/-- So can the bytes the first version feeds of an input, each of its parts in turn. -/
theorem feed_key_v1_splits : Splits (2 ^ 64) feedKeyV1 :=
  (((((feed_str_splits.pair feed_str_splits).pair feed_bool_splits).pair feed_source_splits).pair
    feed_option_splits).pair feed_option_splits).pair feed_sorted_splits

/-- The first version feeds something of every input. -/
theorem feed_key_v1_writes (key : (((((Text × Text) × Bool) × InputSource) × Option Text) ×
    Option Text) × OrderedSet Text) : feedKeyV1 key ≠ [] := by
  simp [feedKeyV1, feed_str_writes]

/-- What the second form feeds of a value note. -/
def noteKey (value : Text × ValueNote) :
    ((Text × Text) × OrderedSet Text) × OrderedSet Text :=
  (((value.1, value.2.summary), OrderedSet.ofList value.2.tags), OrderedSet.ofList value.2.needs)

def feedNote (key : ((Text × Text) × OrderedSet Text) × OrderedSet Text) : List UInt8 :=
  feedStr key.1.1.1 ++ feedStr key.1.1.2 ++ feedSorted key.1.2 ++ feedSorted key.2

/-- The bytes fed of a described value can be split off whatever follows. -/
theorem feed_note_splits : Splits (2 ^ 64) feedNote :=
  ((feed_str_splits.pair feed_str_splits).pair feed_sorted_splits).pair feed_sorted_splits

/-- Something is fed of every described value. -/
theorem feed_note_writes (key : ((Text × Text) × OrderedSet Text) × OrderedSet Text) :
    feedNote key ≠ [] := by
  simp [feedNote, feed_str_writes]

/-- All described values, with their number in front, can be split off. -/
theorem feed_notes_splits : Splits (2 ^ 64)
    fun keys : List (((Text × Text) × OrderedSet Text) × OrderedSet Text) =>
      feedU64 keys.length ++ keys.flatMap feedNote :=
  feed_note_splits.counted to_le_bytes_delimits feed_note_writes

/-- A list's separator can be split off. -/
theorem feed_list_splits : Splits (2 ^ 64)
    fun list : Option ListSeparator => feedOption (list.map ListSeparator.word) :=
  feed_option_splits.comap (Option.map ListSeparator.word)
    (Option.map_injective (by
      intro left right same
      cases left <;> cases right <;> first | rfl | exact absurd same (by decide)))

/-- What the second form feeds of an input. -/
structure KeyV2 where
  first : (((((Text × Text) × Bool) × InputSource) × Option Text) × Option Text) × OrderedSet Text
  needs : OrderedSet Text
  list : Option ListSeparator
  notes : List (((Text × Text) × OrderedSet Text) × OrderedSet Text)
  empty : Bool
  examples : OrderedSet Text

def keyV2 (input : ArgSpec) : KeyV2 where
  first := input.keyV1
  needs := OrderedSet.ofList input.needs
  list := input.list
  notes := input.values.map noteKey
  empty := input.isEnumerated && input.oneOf.isEmpty
  examples := OrderedSet.ofList input.examples

def feedKeyV2 (key : KeyV2) : List UInt8 :=
  feedKeyV1 key.first ++ feedSorted key.needs ++ feedOption (key.list.map ListSeparator.word) ++
    (feedU64 key.notes.length ++ key.notes.flatMap feedNote) ++
    feedU8 (if key.empty then 1 else 0) ++ feedSorted key.examples

/-- The bytes the second version feeds of an input can be split off. -/
theorem feed_key_v2_splits : Splits (2 ^ 64) feedKeyV2 :=
  ((((((feed_key_v1_splits.pair feed_sorted_splits).pair feed_list_splits).pair
    feed_notes_splits).pair feed_bool_splits).pair feed_sorted_splits).comap
    (fun key : KeyV2 =>
      (((((key.first, key.needs), key.list), key.notes), key.empty), key.examples))
    (by
      rintro ⟨⟩ ⟨⟩ same
      simpa [and_assoc] using same))

/-- What the second version feeds of an input is what it feeds of its key. -/
theorem feed_v2_key (input : ArgSpec) : input.feedV2 = feedKeyV2 input.keyV2 := by
  simp only [feedV2, feedKeyV2, keyV2, List.length_map, List.flatMap_map]
  rfl

/-- A set made of a list is empty exactly when the list is. -/
theorem of_list_is_empty (items : List Text) :
    (OrderedSet.ofList items).items.isEmpty = items.isEmpty := by
  cases items with
  | nil => rfl
  | cons item rest =>
    have member : item ∈ (OrderedSet.ofList (item :: rest)).items :=
      (OrderedSet.mem_of_list _ _).mpr List.mem_cons_self
    rw [List.isEmpty_cons, List.isEmpty_eq_false_iff]
    exact List.ne_nil_of_mem member

/-- The outline a key tells. -/
def KeyV2.outline (key : KeyV2) : ArgSpec where
  name := key.first.1.1.1.1.1.1
  summary := key.first.1.1.1.1.1.2
  required := key.first.1.1.1.1.2
  source := key.first.1.1.1.2
  «class» := key.first.1.1.2
  default := key.first.1.2
  oneOf := key.first.2.items
  enumerated := key.empty || !key.first.2.items.isEmpty
  examples := key.examples.items
  needs := key.needs.items
  list := key.list
  values := key.notes.map fun note =>
    (note.1.1.1, ⟨note.1.1.2, note.1.2.items, note.2.items⟩)

/-- An input's key shows its outline. -/
theorem key_v2_outline (input : ArgSpec) : input.keyV2.outline = input.outline := by
  have listed : (input.isEnumerated && input.oneOf.isEmpty ||
      !(OrderedSet.ofList input.oneOf).items.isEmpty) = input.isEnumerated := by
    rw [of_list_is_empty, isEnumerated]
    cases input.enumerated <;> cases input.oneOf.isEmpty <;> rfl
  simp only [KeyV2.outline, keyV2, keyV1, outline, content, listed, List.map_map]
  rfl

/-- An input that is neither read as a body nor fixed is its outline. -/
theorem outline_eq (input : ArgSpec) (reads : input.readsBody = false)
    (fixes : input.fixed = none) : input.outline = input.content := by
  cases input
  cases reads
  cases fixes
  rfl

/-- The outline keeps the key: nothing the key is made of is left out. -/
theorem outline_key_v2 (input : ArgSpec) : input.outline.keyV2 = input.keyV2 := by
  have listed : input.outline.isEnumerated = input.isEnumerated := by
    simp only [isEnumerated, outline, content, of_list_is_empty]
    cases input.enumerated <;> cases input.oneOf.isEmpty <;> rfl
  have notes : input.outline.values.map noteKey = input.values.map noteKey := by
    simp only [outline, content, List.map_map]
    refine List.map_congr_left fun value _ => ?_
    simp only [noteKey, Function.comp_apply, ValueNote.content, ofList_items]
  rw [keyV2, listed, notes]
  simp only [keyV2, keyV1, outline, content, ofList_items, of_list_is_empty]

/-- Two inputs are fed alike in the second form exactly when they have one outline. -/
theorem feed_v2_eq_iff (left right : ArgSpec) (short : left.feedV2.length < 2 ^ 64) :
    left.feedV2 = right.feedV2 ↔ left.outline = right.outline := by
  rw [feed_v2_key] at short
  rw [feed_v2_key, feed_v2_key]
  constructor
  · intro same
    have keys := feed_key_v2_splits.eq_of_same _ _ short same
    rw [← key_v2_outline, ← key_v2_outline, keys]
  · intro same
    rw [← outline_key_v2 left, ← outline_key_v2 right, same]

/-- What the first form feeds tells an input that says no more. -/
theorem outline_of_key_v1 (left right : ArgSpec) (plain : left.usesV2 = false)
    (plain' : right.usesV2 = false) (same : left.keyV1 = right.keyV1) :
    left.outline = right.outline := by
  have rest : left.keyV2 = right.keyV2 := by
    simp only [usesV2, Bool.or_eq_false_iff, Bool.not_eq_false', List.isEmpty_iff,
      Option.isSome_eq_false_iff, Option.isNone_iff_eq_none] at plain plain'
    obtain ⟨⟨⟨⟨⟨⟨needs, list⟩, values⟩, examples⟩, empty⟩, _⟩, _⟩ := plain
    obtain ⟨⟨⟨⟨⟨⟨needs', list'⟩, values'⟩, examples'⟩, empty'⟩, _⟩, _⟩ := plain'
    simp only [keyV2, same, needs, list, values, examples, empty, needs', list', values',
      examples', empty']
  rw [← key_v2_outline, ← key_v2_outline, rest]

end ArgSpec

namespace InputGroup

/-- Two kinds of group have two words. -/
theorem kind_word_injective : Function.Injective GroupKind.word := by
  intro left right same
  cases left <;> cases right <;> first | rfl | exact absurd same (by decide)

/-- What is fed of a group. -/
def feedKey (key : (GroupKind × OrderedSet Text) × Option Text) : List UInt8 :=
  feedStr key.1.1.word ++ feedSorted key.1.2 ++ feedOption key.2

def key (group : InputGroup) : (GroupKind × OrderedSet Text) × Option Text :=
  ((group.kind, OrderedSet.ofList group.members), group.pipe)

/-- The bytes fed of a group can be split off. -/
theorem feed_key_splits : Splits (2 ^ 64) feedKey :=
  ((feed_str_splits.comap GroupKind.word kind_word_injective).pair feed_sorted_splits).pair
    feed_option_splits

/-- Two groups are fed alike exactly when they have one content. -/
theorem feed_v2_eq_iff (left right : InputGroup) (short : left.feedV2.length < 2 ^ 64) :
    left.feedV2 = right.feedV2 ↔ left.content = right.content := by
  have read : ∀ group : InputGroup,
      group.content = ⟨group.key.1.1, group.key.1.2.items, group.key.2⟩ := fun _ => rfl
  have fed : ∀ group : InputGroup, group.content.feedV2 = group.feedV2 := fun group => by
    simp only [content, feedV2, feedSet, ofList_items]
  constructor
  · intro same
    have keys : left.key = right.key := feed_key_splits.eq_of_same left.key right.key short same
    rw [read, read, keys]
  · intro same
    rw [← fed left, ← fed right, same]

end InputGroup

/-- An item is shorter than the set it is fed in. -/
theorem item_shorter (items : List (List UInt8)) (item : List UInt8) (member : item ∈ items) :
    item.length < (feedItems items).length := by
  have inside : item ∈ (OrderedSet.ofList items).items := (OrderedSet.mem_of_list _ _).mpr member
  obtain ⟨before, after, split⟩ := List.append_of_mem inside
  simp only [feedItems, feedEncoded, feedU64, split, List.flatMap_append, List.flatMap_cons,
    List.length_append, feedBytes, to_le_bytes_length]
  omega

/-- Items fed as one set are the same up to what tells them apart. -/
theorem shown_of_items {α β : Type} [DecidableEq β] (feed : α → List UInt8) (shown : α → β)
    (left right : List α)
    (told : ∀ item ∈ left, ∀ other ∈ right, feed item = feed other ↔ shown item = shown other) :
    OrderedSet.ofList (left.map feed) = OrderedSet.ofList (right.map feed) ↔
      ∀ face, face ∈ left.map shown ↔ face ∈ right.map shown := by
  have members : OrderedSet.ofList (left.map feed) = OrderedSet.ofList (right.map feed) ↔
      ∀ bytes, bytes ∈ left.map feed ↔ bytes ∈ right.map feed := by
    constructor
    · intro same bytes
      rw [← OrderedSet.mem_of_list, same, OrderedSet.mem_of_list]
    · intro same
      apply OrderedSet.eq_of_mem
      intro bytes
      rw [OrderedSet.mem_of_list, OrderedSet.mem_of_list, same]
  rw [members]
  simp only [List.mem_map]
  constructor
  · intro same face
    constructor
    · rintro ⟨item, member, rfl⟩
      obtain ⟨other, member', fed⟩ := (same (feed item)).mp ⟨item, member, rfl⟩
      exact ⟨other, member', ((told item member other member').mp fed.symm).symm⟩
    · rintro ⟨other, member', rfl⟩
      obtain ⟨item, member, fed⟩ := (same (feed other)).mpr ⟨other, member', rfl⟩
      exact ⟨item, member, (told item member other member').mp fed⟩
  · intro same bytes
    constructor
    · rintro ⟨item, member, rfl⟩
      obtain ⟨other, member', face⟩ := (same (shown item)).mp ⟨item, member, rfl⟩
      exact ⟨other, member', ((told item member other member').mpr face.symm).symm⟩
    · rintro ⟨other, member', rfl⟩
      obtain ⟨item, member, face⟩ := (same (shown other)).mpr ⟨other, member', rfl⟩
      exact ⟨item, member, (told item member other member').mpr face⟩

/-- The bytes fed of how undeclared arguments are taken can be split off. -/
theorem arguments_splits : Splits (2 ^ 64) Arguments.feedV2 := by
  intro left right after after' below same
  cases left <;> cases right <;>
    simp only [Arguments.feedV2, feedU8, List.cons_append, List.nil_append, List.cons.injEq,
      true_and, reduceCtorEq, false_and] at same below ⊢
  case closed.closed => exact same
  case open.open left right =>
    rw [List.length_cons] at below
    obtain ⟨first, rest⟩ := feed_str_splits left right after after' (by omega) same
    exact ⟨by rw [first], rest⟩
  case envelope.envelope left right =>
    rw [List.length_cons] at below
    obtain ⟨first, rest⟩ := feed_str_splits left right after after' (by omega) same
    exact ⟨by rw [first], rest⟩
  all_goals exact absurd same.1 (by decide)

/-- The bytes fed of what an output is taken from can be split off. -/
theorem output_from_splits : Splits (2 ^ 64) feedOutputFrom := by
  intro left right after after' below same
  rcases left with _ | (left | _) <;> rcases right with _ | (right | _) <;>
    simp only [feedOutputFrom, feedU8, List.cons_append, List.nil_append, List.cons.injEq,
      true_and] at same below ⊢
  case none.none => exact same
  case some.input.some.input =>
    rw [List.length_cons] at below
    obtain ⟨first, rest⟩ := feed_str_splits left right after after' (by omega) same
    exact ⟨by rw [first], rest⟩
  case some.origin.some.origin => exact same
  all_goals exact absurd same.1 (by decide)

namespace ActionSpec

/-- The parts of the tail, each there only when it says something. -/
def statedFailures (spec : ActionSpec) : Option (OrderedSet (List UInt8)) :=
  spec.failures.classes.map fun classes =>
    OrderedSet.ofList (classes.map fun failure => feedStr failure.word)

def statedExistence (spec : ActionSpec) : Option Unit :=
  if spec.existenceSensitive then some () else none

def statedReaders (spec : ActionSpec) : Option (OrderedSet Text) :=
  if spec.readers.isEmpty then none else some (OrderedSet.ofList spec.readers)

def statedFixed (spec : ActionSpec) : Option (OrderedSet Text) :=
  if spec.fixedPairs.isEmpty then none else some (OrderedSet.ofList spec.fixedPairs)

/-- What a contract feeds behind its inputs: its stated failures, existence and readers, each
under a tag of its own and only where it is stated. -/
theorem feed_tail_parts (spec : ActionSpec) :
    spec.feedTail =
      (spec.statedFailures.elim [] fun failures => 1 :: feedEncoded failures) ++
        ((spec.statedExistence.elim [] fun _ => [2]) ++
          ((spec.statedReaders.elim [] fun readers => 3 :: feedSorted readers) ++
            ((spec.statedFixed.elim [] fun pairs => 4 :: feedSorted pairs) ++ []))) := by
  have failures : feedFailures spec.failures.classes =
      spec.statedFailures.elim [] fun failures => 1 :: feedEncoded failures := by
    rw [statedFailures]
    cases spec.failures.classes <;> rfl
  have existence : (if spec.existenceSensitive then feedU8 2 else []) =
      spec.statedExistence.elim [] fun _ => [2] := by
    rw [statedExistence]
    split <;> rfl
  have reading : (if spec.readers.isEmpty then [] else feedU8 3 ++ feedSet spec.readers) =
      spec.statedReaders.elim [] fun readers => 3 :: feedSorted readers := by
    rw [statedReaders]
    split <;> rfl
  have fixing : (if spec.fixedPairs.isEmpty then [] else feedU8 4 ++ feedSet spec.fixedPairs) =
      spec.statedFixed.elim [] fun pairs => 4 :: feedSorted pairs := by
    rw [statedFixed]
    split <;> rfl
  rw [feedTail, failures, existence, reading, fixing]
  simp only [List.append_assoc, List.append_nil]

/-- Two classes of failure have two words. -/
theorem word_injective : Function.Injective FailureClass.word := by
  intro left right same
  cases left <;> cases right <;> first | rfl | exact absurd same (by decide)

/-- Two texts that feed the same bytes are one, when they are short enough for their length to
fit. -/
theorem feed_str_injective_short (left right : Text) (short : (feedStr left).length < 2 ^ 64)
    (same : feedStr left = feedStr right) : left = right :=
  feed_str_splits.eq_of_same left right short same

/-- The words for failures are. -/
theorem word_short (failure : FailureClass) : (feedStr failure.word).length < 2 ^ 64 := by
  cases failure <;> decide

/-- Failure classes are fed alike exactly when they are the same. -/
theorem stated_failures_iff (left right : ActionSpec) :
    left.statedFailures = right.statedFailures ↔
      left.failures.classes.map List.toFinset = right.failures.classes.map List.toFinset := by
  rw [statedFailures, statedFailures]
  cases left.failures.classes with
  | none => cases right.failures.classes <;> simp
  | some classes =>
    cases right.failures.classes with
    | none => simp
    | some others =>
      simp only [Option.map_some, Option.some.injEq]
      rw [shown_of_items (fun failure => feedStr failure.word) id classes others
        (fun failure _ other _ => ⟨fun same =>
          word_injective (feed_str_injective_short _ _ (word_short failure) same), fun same =>
          congrArg (fun failure : FailureClass => feedStr failure.word) same⟩)]
      simp only [List.map_id, Finset.ext_iff, List.mem_toFinset]

/-- Two sets stated only where they are not empty are stated alike exactly when they are equal. -/
theorem stated_sets_iff (left right : List Text) :
    ((if left.isEmpty then none else some (OrderedSet.ofList left)) =
        if right.isEmpty then none else some (OrderedSet.ofList right)) ↔
      OrderedSet.ofList left = OrderedSet.ofList right := by
  rw [← ArgSpec.of_list_is_empty left, ← ArgSpec.of_list_is_empty right]
  constructor
  · intro same
    split at same
    · rename_i nothing
      split at same
      · rename_i nothing'
        apply OrderedSet.ext
        rw [List.isEmpty_iff.mp nothing, List.isEmpty_iff.mp nothing']
      · cases same
    · split at same
      · cases same
      · exact Option.some.inj same
  · intro same
    rw [same]

/-- With a part in front, stated or not, what is fed still does not begin with another's tag. -/
theorem head_stated {α : Type} (part : Option α) (tag : UInt8) (feed : α → List UInt8)
    (after : List UInt8) (other : UInt8) (apart : tag ≠ other)
    (further : after.head? ≠ some other) :
    ((part.elim [] fun value => tag :: feed value) ++ after).head? ≠ some other := by
  cases part with
  | none => exact further
  | some value => simpa using apart

/-- The tail is read back part by part. -/
theorem feed_tail_same (left right : ActionSpec) (short : left.feedTail.length < 2 ^ 64)
    (same : left.feedTail = right.feedTail) :
    left.statedFailures = right.statedFailures ∧
      left.existenceSensitive = right.existenceSensitive ∧
      OrderedSet.ofList left.readers = OrderedSet.ofList right.readers ∧
      OrderedSet.ofList left.fixedPairs = OrderedSet.ofList right.fixedPairs := by
  have nothing : Splits (2 ^ 64) fun _ : Unit => ([] : List UInt8) := by
    intro _ _ _ _ _ same
    exact ⟨rfl, same⟩
  have ends : ∀ tag : UInt8, ([] : List UInt8).head? ≠ some tag := fun _ same => by cases same
  rw [feed_tail_parts, feed_tail_parts] at same
  rw [feed_tail_parts] at short
  obtain ⟨failures, rest⟩ := feed_encoded_splits.section_ _ _ _ _
    (head_stated _ 2 _ _ 1 (by decide) (head_stated _ 3 _ _ 1 (by decide)
      (head_stated _ 4 _ _ 1 (by decide) (ends 1))))
    (head_stated _ 2 _ _ 1 (by decide) (head_stated _ 3 _ _ 1 (by decide)
      (head_stated _ 4 _ _ 1 (by decide) (ends 1)))) short same
  rw [List.length_append] at short
  obtain ⟨existence, rest⟩ := nothing.section_ _ _ _ _
    (head_stated _ 3 _ _ 2 (by decide) (head_stated _ 4 _ _ 2 (by decide) (ends 2)))
    (head_stated _ 3 _ _ 2 (by decide) (head_stated _ 4 _ _ 2 (by decide) (ends 2)))
    (by omega) rest
  rw [List.length_append] at short
  obtain ⟨reading, rest⟩ := feed_sorted_splits.section_ _ _ _ _
    (head_stated _ 4 _ _ 3 (by decide) (ends 3)) (head_stated _ 4 _ _ 3 (by decide) (ends 3))
    (by omega) rest
  rw [List.length_append] at short
  obtain ⟨fixing, _⟩ := feed_sorted_splits.section_ _ _ _ _ (ends 4) (ends 4) (by omega) rest
  refine ⟨failures, ?_, (stated_sets_iff _ _).mp reading, (stated_sets_iff _ _).mp fixing⟩
  rw [statedExistence, statedExistence] at existence
  cases here : left.existenceSensitive <;> cases there : right.existenceSensitive <;>
    simp [here, there] at existence ⊢

/-- Two verbs have two segments. -/
theorem verb_segment_injective : Function.Injective verbSegment := by
  intro left right same
  cases left <;> cases right <;> first | rfl | exact absurd same (by decide)

/-- All inputs as the first version feeds them, with their number in front, can be split off. -/
theorem feed_keys_v1_splits : Splits (2 ^ 64)
    fun keys : List ((((((Text × Text) × Bool) × InputSource) × Option Text) × Option Text) ×
      OrderedSet Text) => feedU64 keys.length ++ keys.flatMap ArgSpec.feedKeyV1 :=
  ArgSpec.feed_key_v1_splits.counted to_le_bytes_delimits ArgSpec.feed_key_v1_writes

/-- What both forms open with. -/
theorem feed_head_splits : Splits (2 ^ 64)
    fun head : ((Text × Text) × Text) × Text =>
      feedStr head.1.1.1 ++ feedStr head.1.1.2 ++ feedStr head.1.2 ++ feedStr head.2 :=
  ((feed_str_splits.pair feed_str_splits).pair feed_str_splits).pair feed_str_splits

/-- Leaving out repeats leaves every member. -/
theorem mem_drop_repeats {α : Type} [DecidableEq α] (items : List α) (item : α) :
    item ∈ dropRepeats items ↔ item ∈ items := by
  fun_induction dropRepeats items with
  | case1 => rfl
  | case2 => rfl
  | case3 first rest ih =>
    rw [ih]
    simp
  | case4 first second rest apart ih => simp only [List.mem_cons, ih]

/-- The inputs the first form feeds have the outlines of the contract's own. -/
theorem outlines_v1 (spec : ActionSpec) (face : ArgSpec) :
    face ∈ spec.inputsV1.map ArgSpec.outline ↔ face ∈ spec.inputs.map ArgSpec.outline := by
  have same : ∀ input : ArgSpec, input.canonicalInput.outline = input.outline := fun input => by
    rw [← ArgSpec.key_v2_outline, ← ArgSpec.key_v2_outline]
    congr 1
    simp only [ArgSpec.keyV2, ArgSpec.keyV1, ArgSpec.canonicalInput, ArgSpec.isEnumerated,
      ofList_items, ArgSpec.of_list_is_empty, Bool.or_assoc, Bool.or_self]
  simp only [inputsV1, List.mem_map, mem_drop_repeats, List.mem_mergeSort]
  constructor
  · rintro ⟨_, ⟨input, member, rfl⟩, shown⟩
    exact ⟨input, member, (same input).symm.trans shown⟩
  · rintro ⟨input, member, shown⟩
    exact ⟨_, ⟨input, member, rfl⟩, (same input).trans shown⟩

/-- No input the first form feeds says more. -/
theorem plain_v1 (spec : ActionSpec) (plain : spec.usesV2 = false) :
    ∀ input ∈ spec.inputsV1, input.usesV2 = false := by
  intro input member
  simp only [inputsV1, mem_drop_repeats, List.mem_mergeSort, List.mem_map] at member
  obtain ⟨own, inside, rfl⟩ := member
  simp only [usesV2, Bool.or_eq_false_iff, List.any_eq_false] at plain
  have said := plain.2 own inside
  simpa [ArgSpec.usesV2, ArgSpec.canonicalInput, ArgSpec.isEnumerated,
    ArgSpec.of_list_is_empty] using said

/-- Inputs without what the second version added have the outlines their first keys say. -/
theorem outlines_of_keys_v1 (left right : List ArgSpec)
    (plain : ∀ input ∈ left, input.usesV2 = false)
    (plain' : ∀ input ∈ right, input.usesV2 = false)
    (same : left.map ArgSpec.keyV1 = right.map ArgSpec.keyV1) :
    left.map ArgSpec.outline = right.map ArgSpec.outline := by
  induction left generalizing right with
  | nil =>
    cases right with
    | nil => rfl
    | cons input rest => cases same
  | cons input rest ih =>
    cases right with
    | nil => cases same
    | cons other rest' =>
      simp only [List.map_cons, List.cons.injEq] at same ⊢
      exact ⟨ArgSpec.outline_of_key_v1 _ _ (plain input List.mem_cons_self)
        (plain' other List.mem_cons_self) same.1,
        ih rest' (fun i m => plain i (List.mem_cons_of_mem _ m))
          (fun i m => plain' i (List.mem_cons_of_mem _ m)) same.2⟩

/-- A contract in the first form says nothing apart from its inputs. -/
theorem nothing_apart (spec : ActionSpec) (plain : spec.usesV2 = false) :
    spec.failures = .unstated ∧ spec.existenceSensitive = false ∧ spec.groups = [] ∧
      spec.arguments = .closed ∧ spec.outputFrom = none ∧ spec.readers = [] ∧
      spec.fixedPairs = [] ∧ ∀ input ∈ spec.inputs, input.outline = input.content := by
  simp only [usesV2, Bool.or_eq_false_iff, List.any_eq_false, decide_eq_false_iff_not, not_not,
    Bool.not_eq_false', List.isEmpty_iff, Option.isSome_eq_false_iff,
    Option.isNone_iff_eq_none] at plain
  obtain ⟨⟨⟨⟨⟨failures, existence⟩, groups⟩, arguments⟩, outputFrom⟩, inputs⟩ := plain
  have said : ∀ input ∈ spec.inputs, input.readsBody = false ∧ input.fixed = none := by
    intro input member
    have none := inputs input member
    simp only [ArgSpec.usesV2, Bool.not_eq_true, Bool.or_eq_false_iff,
      Option.isSome_eq_false_iff, Option.isNone_iff_eq_none] at none
    exact ⟨none.1.2, none.2⟩
  refine ⟨failures, existence, groups, ?_, outputFrom, ?_, ?_, ?_⟩
  · cases given : spec.arguments with
    | closed => rfl
    | «open» summary => simp [given, Arguments.isClosed] at arguments
    | envelope carrier => simp [given, Arguments.isClosed] at arguments
  · rw [readers, List.map_eq_nil_iff, List.filter_eq_nil_iff]
    intro input member
    simp [(said input member).1]
  · rw [fixedPairs, List.filterMap_eq_nil_iff]
    intro input member
    rw [(said input member).2, Option.map_none]
  · intro input member
    exact input.outline_eq (said input member).1 (said input member).2

/-- The first form of contracts tells their outline. -/
theorem feed_v1_same (left right : ActionSpec) (id id' : Text)
    (plain : left.usesV2 = false) (plain' : right.usesV2 = false)
    (short : (left.feedV1 id).length < 2 ^ 64) (same : left.feedV1 id = right.feedV1 id') :
    id = id' ∧ SameOutline left right := by
  have fed : ∀ (spec : ActionSpec) (id : Text), spec.feedV1 id =
      feedStr contractForm ++ feedStr id ++ feedStr (verbSegment spec.verb) ++
        feedStr spec.summary ++
        (feedU64 (spec.inputsV1.map ArgSpec.keyV1).length ++
          (spec.inputsV1.map ArgSpec.keyV1).flatMap ArgSpec.feedKeyV1) ++
        feedSorted (OrderedSet.ofList spec.outputs) ++
        feedSorted (OrderedSet.ofList spec.requires) := by
    intro spec id
    rw [List.length_map, List.flatMap_map]
    simp only [feedV1, feedSet, List.append_assoc]
    rfl
  rw [fed] at short
  rw [fed, fed] at same
  have whole := (((feed_head_splits.pair feed_keys_v1_splits).pair feed_sorted_splits).pair
    feed_sorted_splits).eq_of_same
      ((((((contractForm, id), verbSegment left.verb), left.summary),
        left.inputsV1.map ArgSpec.keyV1), OrderedSet.ofList left.outputs),
        OrderedSet.ofList left.requires)
      ((((((contractForm, id'), verbSegment right.verb), right.summary),
        right.inputsV1.map ArgSpec.keyV1), OrderedSet.ofList right.outputs),
        OrderedSet.ofList right.requires) short same
  simp only [Prod.mk.injEq, true_and] at whole
  obtain ⟨⟨⟨⟨⟨ids, verbs⟩, summaries⟩, keys⟩, outputs⟩, requires⟩ := whole
  obtain ⟨failures, existence, groups, arguments, outputFrom, reading, fixing, _⟩ :=
    nothing_apart left plain
  obtain ⟨failures', existence', groups', arguments', outputFrom', reading', fixing', _⟩ :=
    nothing_apart right plain'
  have inputs := outlines_of_keys_v1 _ _ (plain_v1 left plain) (plain_v1 right plain') keys
  refine ⟨ids, ⟨verb_segment_injective verbs, summaries, ?_, outputs, requires, ?_, ?_, ?_, ?_,
    ?_⟩, ?_, ?_⟩
  · intro face
    rw [← outlines_v1 left, ← outlines_v1 right, inputs]
  · rw [groups, groups']
    exact fun _ => Iff.rfl
  · rw [arguments, arguments']
  · rw [outputFrom, outputFrom']
  · rw [failures, failures']
  · rw [existence, existence']
  · rw [reading, reading']
  · rw [fixing, fixing']

/-- What the second form feeds before the tail, as sets. -/
theorem feed_v2_parts (spec : ActionSpec) (id : Text) :
    spec.feedV2 id =
      feedStr contractFormV2 ++ feedStr id ++ feedStr (verbSegment spec.verb) ++
        feedStr spec.summary ++
        feedEncoded (OrderedSet.ofList (spec.inputs.map ArgSpec.feedV2)) ++
        feedSorted (OrderedSet.ofList spec.outputs) ++
        feedSorted (OrderedSet.ofList spec.requires) ++
        feedEncoded (OrderedSet.ofList (spec.groups.map InputGroup.feedV2)) ++
        spec.arguments.feedV2 ++ feedOutputFrom spec.outputFrom ++ spec.feedTail := rfl

/-- Every item of a set is shorter than what the set is part of. -/
theorem items_short (spec : ActionSpec) (id : Text) (short : (spec.feedV2 id).length < 2 ^ 64) :
    (∀ input ∈ spec.inputs, input.feedV2.length < 2 ^ 64) ∧
      ∀ group ∈ spec.groups, group.feedV2.length < 2 ^ 64 := by
  simp only [feedV2, List.length_append] at short
  constructor
  · intro input member
    have within := item_shorter _ _ (List.mem_map_of_mem (f := ArgSpec.feedV2) member)
    omega
  · intro group member
    have within := item_shorter _ _ (List.mem_map_of_mem (f := InputGroup.feedV2) member)
    omega

/-- The second form of contracts tells their outline. -/
theorem feed_v2_same (left right : ActionSpec) (id id' : Text)
    (short : (left.feedV2 id).length < 2 ^ 64) (same : left.feedV2 id = right.feedV2 id') :
    id = id' ∧ SameOutline left right := by
  obtain ⟨inputsShort, groupsShort⟩ := items_short left id short
  rw [feed_v2_parts] at short
  rw [feed_v2_parts, feed_v2_parts] at same
  obtain ⟨whole, tail⟩ := ((((((feed_head_splits.pair feed_encoded_splits).pair
    feed_sorted_splits).pair feed_sorted_splits).pair feed_encoded_splits).pair
    arguments_splits).pair output_from_splits)
      (((((((((contractFormV2, id), verbSegment left.verb), left.summary),
        OrderedSet.ofList (left.inputs.map ArgSpec.feedV2)), OrderedSet.ofList left.outputs),
        OrderedSet.ofList left.requires),
        OrderedSet.ofList (left.groups.map InputGroup.feedV2)), left.arguments), left.outputFrom)
      (((((((((contractFormV2, id'), verbSegment right.verb), right.summary),
        OrderedSet.ofList (right.inputs.map ArgSpec.feedV2)), OrderedSet.ofList right.outputs),
        OrderedSet.ofList right.requires),
        OrderedSet.ofList (right.groups.map InputGroup.feedV2)), right.arguments),
        right.outputFrom)
      left.feedTail right.feedTail short same
  rw [List.length_append] at short
  obtain ⟨failures, existence, reading, fixing⟩ := feed_tail_same left right (by omega) tail
  simp only [Prod.mk.injEq, true_and] at whole
  obtain ⟨⟨⟨⟨⟨⟨⟨⟨ids, verbs⟩, summaries⟩, inputs⟩, outputs⟩, requires⟩, groups⟩, arguments⟩,
    outputFrom⟩ := whole
  refine ⟨ids, ⟨verb_segment_injective verbs, summaries, ?_, outputs, requires, ?_, arguments,
    outputFrom, (stated_failures_iff left right).mp failures, existence⟩, reading, fixing⟩
  · exact (shown_of_items ArgSpec.feedV2 ArgSpec.outline _ _ fun input member other _ =>
      ArgSpec.feed_v2_eq_iff input other (inputsShort input member)).mp inputs
  · exact (shown_of_items InputGroup.feedV2 InputGroup.content _ _ fun group member other _ =>
      InputGroup.feed_v2_eq_iff group other (groupsShort group member)).mp groups

/-- Contracts of one outline feed the same in the second form. -/
theorem feed_v2_of_outline (left right : ActionSpec) (id : Text)
    (short : (left.feedV2 id).length < 2 ^ 64) (same : SameOutline left right) :
    left.feedV2 id = right.feedV2 id := by
  obtain ⟨inputsShort, groupsShort⟩ := items_short left id short
  have inputs := (shown_of_items ArgSpec.feedV2 ArgSpec.outline left.inputs right.inputs
    fun input member other _ =>
      ArgSpec.feed_v2_eq_iff input other (inputsShort input member)).mpr same.alike.inputs
  have groups := (shown_of_items InputGroup.feedV2 InputGroup.content left.groups right.groups
    fun group member other _ =>
      InputGroup.feed_v2_eq_iff group other (groupsShort group member)).mpr same.alike.groups
  have failures := (stated_failures_iff left right).mpr same.alike.failures
  have existence : left.statedExistence = right.statedExistence := by
    rw [statedExistence, statedExistence, same.alike.existenceSensitive]
  have reading : left.statedReaders = right.statedReaders :=
    (stated_sets_iff _ _).mpr same.readers
  have fixing : left.statedFixed = right.statedFixed := (stated_sets_iff _ _).mpr same.fixedPairs
  rw [feed_v2_parts, feed_v2_parts, inputs, groups, same.alike.verb, same.alike.summary,
    same.alike.outputs, same.alike.requires, same.alike.arguments, same.alike.outputFrom,
    feed_tail_parts, feed_tail_parts, failures, existence, reading, fixing]

/-- The two forms of what a digest is taken of open with different words. -/
theorem feed_v1_ne_feed_v2 (left right : ActionSpec) (id id' : Text)
    (short : (left.feedV1 id).length < 2 ^ 64) : left.feedV1 id ≠ right.feedV2 id' := by
  intro same
  simp only [feedV1, feedV2, List.append_assoc] at short same
  exact absurd (feed_str_splits _ _ _ _ short same).1 (by decide)

/-- What a digest is taken of tells its form. -/
theorem forms_apart (left right : ActionSpec) (id id' : Text)
    (short : (left.contractBytes id).length < 2 ^ 64)
    (same : left.contractBytes id = right.contractBytes id') : left.usesV2 = right.usesV2 := by
  unfold contractBytes at short same
  cases uses : left.usesV2 <;> cases uses' : right.usesV2 <;>
    simp only [uses, uses', if_true, Bool.false_eq_true, if_false] at short same
  · rfl
  · exact absurd same (feed_v1_ne_feed_v2 left right id id' short)
  · rw [same] at short
    exact absurd same.symm (feed_v1_ne_feed_v2 right left id' id short)
  · rfl

/-- What a digest is taken of tells the id and the outline. -/
theorem contract_bytes_same (left right : ActionSpec) (id id' : Text)
    (short : (left.contractBytes id).length < 2 ^ 64)
    (same : left.contractBytes id = right.contractBytes id') :
    id = id' ∧ SameOutline left right := by
  have form := forms_apart left right id id' short same
  unfold contractBytes at short same
  cases uses : left.usesV2
  · have uses' := form.symm.trans uses
    rw [uses, uses', if_neg Bool.false_ne_true, if_neg Bool.false_ne_true] at same
    rw [uses, if_neg Bool.false_ne_true] at short
    exact feed_v1_same left right id id' uses uses' short same
  · rw [uses, form.symm.trans uses, if_pos rfl, if_pos rfl] at same
    rw [uses, if_pos rfl] at short
    exact feed_v2_same left right id id' short same

/-- Contracts of one outline with no input read as a body or fixed are of one content. -/
theorem same_content_of_plain (left right : ActionSpec) (same : SameOutline left right)
    (reading : left.readers = []) (fixing : left.fixedPairs = []) : SameContent left right := by
  have empty : ∀ others : List Text, OrderedSet.ofList [] = OrderedSet.ofList others →
      others = [] := by
    intro others same
    have nothing := ArgSpec.of_list_is_empty others
    rw [← same] at nothing
    exact List.isEmpty_iff.mp nothing.symm
  have faces : ∀ spec : ActionSpec, spec.readers = [] → spec.fixedPairs = [] →
      spec.inputs.map ArgSpec.outline = spec.inputs.map ArgSpec.content := by
    intro spec reading fixing
    refine List.map_congr_left fun input member => input.outline_eq ?_ ?_
    · rw [readers, List.map_eq_nil_iff, List.filter_eq_nil_iff] at reading
      simpa using reading input member
    · rw [fixedPairs, List.filterMap_eq_nil_iff] at fixing
      simpa using fixing input member
  have reading' := empty right.readers (reading ▸ same.readers)
  have fixing' := empty right.fixedPairs (fixing ▸ same.fixedPairs)
  refine ⟨same.alike.verb, same.alike.summary, ?_, same.alike.outputs, same.alike.requires,
    same.alike.groups, same.alike.arguments, same.alike.outputFrom, same.alike.failures,
    same.alike.existenceSensitive⟩
  rw [← faces left reading fixing, ← faces right reading' fixing']
  exact same.alike.inputs

/-- Contracts of one outline whose contents differ are fed in the second form, alike. -/
theorem contract_bytes_of_outline (left right : ActionSpec) (id : Text)
    (short : (left.contractBytes id).length < 2 ^ 64) (same : SameOutline left right)
    (differ : ¬SameContent left right) : left.contractBytes id = right.contractBytes id := by
  have swapped : SameOutline right left :=
    ⟨same.alike.symm, same.readers.symm, same.fixedPairs.symm⟩
  have uses : left.usesV2 = true := by
    by_contra plain
    obtain ⟨_, _, _, _, _, reading, fixing, _⟩ := nothing_apart left (by simpa using plain)
    exact differ (same_content_of_plain left right same reading fixing)
  have uses' : right.usesV2 = true := by
    by_contra plain
    obtain ⟨_, _, _, _, _, reading, fixing, _⟩ := nothing_apart right (by simpa using plain)
    exact differ (same_content_of_plain right left swapped reading fixing).symm
  simp only [contractBytes, uses, uses', if_true] at short ⊢
  exact feed_v2_of_outline left right id short same

end ActionSpec

end Ikigai
