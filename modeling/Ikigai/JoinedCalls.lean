import Ikigai.Check

/-!
# Joining repeated arguments

A call with each name given once is the call that was proposed: its names in the order they were
first seen, the same violations, and of a list the items of every value that was given, in order.
Whatever a separator splits at, its canonical character is among it, so joining and splitting
commute. A name stands for the first input that bears it.
-/

namespace Ikigai

/-- A list of some items, each once, in the order they are first seen. -/
structure InFirstSeenOrder (items once : List Text) : Prop where
  nodup : once.Nodup
  mem_iff : ∀ item, item ∈ once ↔ item ∈ items
  ordered : once.Pairwise fun left right => items.idxOf left < items.idxOf right

/-- A name that was seen is not listed again. -/
theorem first_seen_concat (items : List Text) (item : Text) :
    firstSeen (items ++ [item]) =
      if item ∈ firstSeen items then firstSeen items else firstSeen items ++ [item] := by
  rw [firstSeen, List.foldl_append]
  rfl

/-- Names are listed in the order they were first seen in. -/
theorem first_seen_ordered (items : List Text) : InFirstSeenOrder items (firstSeen items) := by
  induction items using List.reverseRecOn with
  | nil => exact ⟨List.nodup_nil, fun _ => Iff.rfl, List.Pairwise.nil⟩
  | append_singleton items item ih =>
    -- an earlier item keeps its place when another follows
    have earlier : (firstSeen items).Pairwise fun left right =>
        (items ++ [item]).idxOf left < (items ++ [item]).idxOf right := by
      refine ih.ordered.imp_of_mem fun left right before => ?_
      rw [List.idxOf_append_of_mem ((ih.mem_iff _).mp left),
        List.idxOf_append_of_mem ((ih.mem_iff _).mp right)]
      exact before
    rw [first_seen_concat]
    split
    · rename_i seen
      refine ⟨ih.nodup, fun other => ?_, earlier⟩
      rw [ih.mem_iff, List.mem_append, List.mem_singleton]
      refine ⟨Or.inl, Or.rec id fun same => ?_⟩
      rw [same]
      exact (ih.mem_iff item).mp seen
    · rename_i fresh
      have absent : item ∉ items := fun member => fresh ((ih.mem_iff item).mpr member)
      refine ⟨?_, fun other => ?_, ?_⟩
      · rw [List.nodup_append]
        refine ⟨ih.nodup, List.nodup_singleton item, fun left member right last same => ?_⟩
        rw [List.mem_singleton.mp last] at same
        exact fresh (same ▸ member)
      · rw [List.mem_append, List.mem_append, ih.mem_iff]
      · rw [List.pairwise_append]
        refine ⟨earlier, List.pairwise_singleton _ item, fun left member right last => ?_⟩
        have inside := (ih.mem_iff left).mp member
        rw [List.mem_singleton.mp last, List.idxOf_append_of_mem inside,
          List.idxOf_append_of_notMem absent]
        exact (List.idxOf_lt_length_of_mem inside).trans_le (Nat.le_add_right _ _)

/-- Every name is listed. -/
theorem mem_first_seen (items : List Text) (item : Text) : item ∈ firstSeen items ↔ item ∈ items :=
  (first_seen_ordered items).mem_iff item

/-- Items that are there once are left as they are. -/
theorem first_seen_of_nodup {items : List Text} (nodup : items.Nodup) : firstSeen items = items := by
  induction items using List.reverseRecOn with
  | nil => rfl
  | append_singleton items item ih =>
    obtain ⟨front, _, apart⟩ := List.nodup_append.mp nodup
    rw [first_seen_concat, ih front, if_neg fun member => apart item member item (by simp) rfl]

namespace Text

/-- A text without white space is trimmed to itself. -/
theorem trim_of_plain {text : Text} (plain : ∀ c ∈ text, isWhitespace c = false) :
    trim text = text := by
  have front : text.dropWhile isWhitespace = text := by
    cases text with
    | nil => rfl
    | cons c text => rw [List.dropWhile_cons_of_neg (by rw [plain c List.mem_cons_self]; decide)]
  rw [trim, front, List.rdropWhile_eq_self_iff]
  intro long
  rw [plain _ (List.getLast_mem long)]
  decide

/-- White space after a text is trimmed with it. -/
theorem trim_concat_space (text : Text) (space : Char) (white : isWhitespace space = true) :
    trim (text ++ [space]) = trim text := by
  rw [trim, trim, List.dropWhile_append]
  split
  · rename_i blank
    rw [List.isEmpty_iff.mp blank, List.dropWhile_cons_of_pos white]
    rfl
  · rw [List.rdropWhile_concat_pos _ _ _ white]

/-- A line that loses its carriage return is trimmed to the same. -/
theorem trim_line (line : Text) : trim ((stripSuffix line '\r').getD line) = trim line := by
  cases stripped : stripSuffix line '\r' with
  | none => rfl
  | some rest =>
    rw [(strip_suffix_eq_some line rest '\r').mp stripped, Option.getD_some,
      trim_concat_space _ _ (by decide)]

end Text

namespace ListSeparator

/-- The characters an item ends at. -/
def ends : ListSeparator → Char → Bool
  | .comma, c => c = ','
  | .whitespace, c => Text.isWhitespace c
  | .commaOrWhitespace, c => c = ',' || Text.isWhitespace c
  | .newline, c => c = '\n'

/-- The separator a list is joined with ends an item. -/
theorem ends_canonical (separator : ListSeparator) : separator.ends separator.canonical = true := by
  cases separator <;> decide

/-- Items without white space are trimmed to themselves. -/
theorem map_trim_of_plain {pieces : List Text}
    (plain : ∀ piece ∈ pieces, ∀ c ∈ piece, Text.isWhitespace c = false) :
    pieces.map Text.trim = pieces := by
  rw [List.map_congr_left fun piece member => Text.trim_of_plain (plain piece member), List.map_id']

/-- Splitting at line ends or at line feeds leaves the same items once they are trimmed: a
carriage return is white space. -/
theorem map_trim_lines (text : Text) :
    ((Text.lines text).map Text.trim).filter (fun item => !item.isEmpty) =
      ((text.splitOnP (· = '\n')).map Text.trim).filter fun item => !item.isEmpty := by
  have some := List.splitOnP_ne_nil (fun c => decide (c = '\n')) text
  rw [Text.lines]
  generalize text.splitOnP (fun c => decide (c = '\n')) = pieces at some ⊢
  have joined := List.dropLast_concat_getLast some
  have trimmed : (pieces.dropLast.map fun line => (Text.stripSuffix line '\r').getD line).map
      Text.trim = pieces.dropLast.map Text.trim := by
    rw [List.map_map]
    exact List.map_congr_left fun line _ => Text.trim_line line
  conv_rhs => rw [← joined]
  simp only [List.getLast?_eq_some_getLast some, Option.getD_some]
  split
  · rename_i blank
    rw [trimmed, List.isEmpty_iff.mp blank]
    simp [Text.trim]
  · rw [List.map_append, List.map_append, trimmed]

/-- The items are what lies between ends, trimmed, where something is left. -/
theorem split_eq (separator : ListSeparator) (value : Text) :
    separator.split value =
      ((value.splitOnP separator.ends).map Text.trim).filter fun item => !item.isEmpty := by
  cases separator with
  | comma => rfl
  | whitespace =>
    simp only [split, Text.splitWhitespace, List.filter_filter, Bool.and_self]
    rw [show ends .whitespace = Text.isWhitespace from rfl,
      map_trim_of_plain fun piece member c inside =>
        (Text.split_pieces _ value piece member c inside).1]
  | commaOrWhitespace =>
    have plain : ∀ piece ∈ value.splitOnP (fun c => decide (c = ',') || Text.isWhitespace c),
        ∀ c ∈ piece, Text.isWhitespace c = false := fun piece member c inside =>
      (Bool.or_eq_false_iff.mp (Text.split_pieces _ value piece member c inside).1).2
    rw [split, show ends .commaOrWhitespace = fun c => decide (c = ',') || Text.isWhitespace c
      from rfl, map_trim_of_plain plain]
  | newline => exact map_trim_lines value

/-- Lists joined by their separator are split into the items of both. -/
theorem split_append (separator : ListSeparator) (left right : Text) :
    separator.split (left ++ separator.canonical :: right) =
      separator.split left ++ separator.split right := by
  rw [split_eq, split_eq, split_eq, List.splitOnP_append_cons _ _ separator.ends_canonical,
    List.map_append, List.filter_append]

/-- Splitting what was joined gives the items of each value, in order. -/
theorem split_join (separator : ListSeparator) (values : List Text) :
    separator.split (separator.join values) = values.flatMap separator.split := by
  induction values with
  | nil => cases separator <;> decide
  | cons value values ih =>
    cases values with
    | nil => rw [join, List.intercalate_singleton, List.flatMap_singleton]
    | cons next values =>
      rw [join, List.intercalate_cons_cons, List.append_assoc, List.singleton_append, split_append,
        List.flatMap_cons, ← ih, join]

end ListSeparator

namespace ActionSpec

/-- The input a name stands for: the first that bears it. -/
def inputNamed (spec : ActionSpec) (name : Text) : Option ArgSpec :=
  spec.inputs.find? fun input => input.name = name

/-- The separator of a name that stands for a list. -/
def separatorOf (spec : ActionSpec) (name : Text) : Option ListSeparator :=
  (spec.inputNamed name).bind ArgSpec.list

/-- A name given once is joined to what it was given. -/
theorem joined_of_single (spec : ActionSpec) {proposed : ProposedArgs} {name value : Text}
    (single : proposed.valuesOf name = [value]) : spec.joinedOf proposed name = (value, false) := by
  rw [joinedOf, single, joinedValue]

/-- A name is repeated where it is no list's and has more than one value. -/
theorem joined_of_repeated (spec : ActionSpec) (proposed : ProposedArgs) (name : Text) :
    (spec.joinedOf proposed name).2 = true ↔
      spec.separatorOf name = none ∧ 1 < (proposed.valuesOf name).length := by
  rw [joinedOf, ← inputNamed, ← separatorOf]
  rcases proposed.valuesOf name with _ | ⟨first, _ | ⟨second, rest⟩⟩ <;>
    cases spec.separatorOf name <;> simp [joinedValue]

end ActionSpec

namespace ProposedArgs

/-- A name has values exactly when it is among the names. -/
theorem values_of_ne_nil (args : ProposedArgs) (name : Text) :
    args.valuesOf name ≠ [] ↔ name ∈ args.names := by
  rw [names, mem_first_seen, valuesOf, ne_eq, List.map_eq_nil_iff, List.filter_eq_nil_iff]
  simp

/-- Of names that are each given once, the value is the one given. -/
theorem values_of_nodup {pairs : List (Text × Text)} (nodup : (pairs.map Prod.fst).Nodup)
    {name value : Text} (given : (name, value) ∈ pairs) :
    (ProposedArgs.mk pairs).valuesOf name = [value] := by
  induction pairs with
  | nil => cases given
  | cons pair pairs ih =>
    rw [List.map_cons, List.nodup_cons] at nodup
    rcases List.mem_cons.mp given with rfl | later
    · have none : pairs.filter (fun pair => decide (pair.1 = name)) = [] := by
        rw [List.filter_eq_nil_iff]
        intro pair member same
        have inside : pair.1 ∈ pairs.map Prod.fst := List.mem_map_of_mem member
        rw [of_decide_eq_true same] at inside
        exact nodup.1 inside
      rw [valuesOf, List.filter_cons_of_pos (by simp), none]
      rfl
    · have other : pair.1 ≠ name := fun same =>
        nodup.1 (same ▸ List.mem_map_of_mem (f := Prod.fst) later)
      rw [valuesOf, List.filter_cons_of_neg (by simpa using other)]
      exact ih nodup.2 later

/-- The value got of a name is the first. -/
theorem get_eq_head (args : ProposedArgs) (name : Text) :
    args.get name = (args.valuesOf name).head? := by
  rw [get, valuesOf, List.head?_map, List.head?_filter]

end ProposedArgs

namespace ActionSpec

variable (spec : ActionSpec) (proposed : ProposedArgs)

/-- Joining keeps the names, in their order. -/
theorem joined_fst_names : (spec.joined proposed).1.pairs.map Prod.fst = proposed.names := by
  rw [joined, List.map_map]
  exact List.map_id'' (fun _ => rfl) _

/-- Each proposed name is listed once. -/
theorem names_nodup : proposed.names.Nodup := (first_seen_ordered _).nodup

theorem joined_names : (spec.joined proposed).1.names = proposed.names := by
  rw [ProposedArgs.names, joined_fst_names, first_seen_of_nodup (names_nodup proposed)]

/-- Joined, each has one value. -/
theorem joined_values {name : Text} (given : name ∈ proposed.names) :
    (spec.joined proposed).1.valuesOf name = [(spec.joinedOf proposed name).1] := by
  refine ProposedArgs.values_of_nodup ?_ ?_
  · have nodup := names_nodup proposed
    rwa [← joined_fst_names spec] at nodup
  · exact List.mem_map_of_mem given

/-- What is joined once stays as it is. -/
theorem joined_joined : spec.joined (spec.joined proposed).1 = ((spec.joined proposed).1, []) := by
  have single : ∀ name ∈ proposed.names,
      spec.joinedOf (spec.joined proposed).1 name = ((spec.joinedOf proposed name).1, false) :=
    fun name given => spec.joined_of_single (spec.joined_values proposed given)
  conv_lhs => rw [joined, joined_names]
  refine Prod.ext ?_ ?_
  · rw [joined]
    exact congrArg ProposedArgs.mk (List.map_congr_left fun name given =>
      congrArg (fun value => (name, value.1)) (single name given))
  · rw [List.filter_eq_nil_iff]
    intro name given repeated
    rw [single name given] at repeated
    cases repeated

/-- Joining goes through exactly when nothing is refused. -/
theorem join_repeats_eq_ok (joined : ProposedArgs) :
    spec.joinRepeats proposed = .ok joined ↔
      (spec.joined proposed).2 = [] ∧ (spec.joined proposed).1 = joined := by
  rw [joinRepeats]
  cases (spec.joined proposed).2 with
  | nil => simp
  | cons name names => simp

/-- Which names are undeclared depends on the names alone. -/
theorem unknown_of_names {proposed other : ProposedArgs} (same : other.names = proposed.names) :
    spec.unknown other = spec.unknown proposed := by
  rw [unknown, unknown, same]

/-- The joined call breaks the rules that the proposed one does. -/
theorem check_joined (none : (spec.joined proposed).2 = []) :
    spec.check (spec.joined proposed).1 = spec.check proposed := by
  have whole : spec.joined proposed = ((spec.joined proposed).1, []) := Prod.ext rfl none
  rw [check, check, joined_joined, spec.unknown_of_names (spec.joined_names proposed), ← whole]

/-- Of a list, the items of the joined value are the items of each value given. -/
theorem joined_items {name value : Text} {separator : ListSeparator}
    (list : spec.separatorOf name = some separator)
    (given : (spec.joined proposed).1.get name = some value) :
    separator.split value = (proposed.valuesOf name).flatMap separator.split := by
  have member : name ∈ proposed.names := by
    rw [← joined_names spec, ← ProposedArgs.values_of_ne_nil]
    intro empty
    rw [ProposedArgs.get_eq_head, empty] at given
    cases given
  rw [ProposedArgs.get_eq_head, joined_values _ _ member, List.head?_cons, Option.some.injEq,
    joinedOf, ← inputNamed, ← separatorOf, list] at given
  subst given
  rcases proposed.valuesOf name with _ | ⟨first, _ | ⟨second, rest⟩⟩
  · exact separator.split_join []
  · rw [joinedValue, List.flatMap_singleton]
  · exact separator.split_join (first :: second :: rest)

/-- What joining repeats keeps of a call. -/
structure KeepsCall (joined : ProposedArgs) : Prop where
  names : InFirstSeenOrder (proposed.pairs.map Prod.fst) (joined.pairs.map Prod.fst)
  violations : spec.check joined = spec.check proposed
  again : spec.joinRepeats joined = .ok joined
  items : ∀ name separator, spec.separatorOf name = some separator →
    ∀ value, joined.get name = some value →
      separator.split value = (proposed.valuesOf name).flatMap separator.split

/-- Joining repeats keeps the call, and refuses exactly the repeat of a name that is no list's. -/
theorem join_repeats_keeps_call :
    (∀ joined, spec.joinRepeats proposed = .ok joined → spec.KeepsCall proposed joined) ∧
      ((∃ refusal, spec.joinRepeats proposed = .error refusal) ↔
        ∃ name, spec.separatorOf name = none ∧ 1 < (proposed.valuesOf name).length) := by
  constructor
  · intro joined accepted
    obtain ⟨none, rfl⟩ := (spec.join_repeats_eq_ok proposed joined).mp accepted
    refine ⟨?_, spec.check_joined proposed none, ?_, ?_⟩
    · rw [joined_fst_names]
      exact first_seen_ordered _
    · rw [join_repeats_eq_ok, joined_joined]
      exact ⟨rfl, rfl⟩
    · exact fun name separator list value => spec.joined_items proposed list
  · have refused : (∃ refusal, spec.joinRepeats proposed = .error refusal) ↔
        (spec.joined proposed).2 ≠ [] := by
      rw [joinRepeats]
      cases (spec.joined proposed).2 with
      | nil => simp
      | cons name names => simp
    rw [refused, joined, ne_eq, List.filter_eq_nil_iff]
    push Not
    constructor
    · rintro ⟨name, _, repeated⟩
      exact ⟨name, (spec.joined_of_repeated proposed name).mp repeated⟩
    · rintro ⟨name, repeated⟩
      refine ⟨name, ?_, (spec.joined_of_repeated proposed name).mpr repeated⟩
      rw [← ProposedArgs.values_of_ne_nil]
      exact List.ne_nil_of_length_pos (Nat.zero_lt_of_lt repeated.2)

end ActionSpec

namespace OneNameTwoInputsExample

/-- A list at commas and a list at line ends, of one name. -/
def spec : ActionSpec where
  verb := .source
  inputs := [{ name := ['x'], list := some .comma }, { name := ['x'], list := some .newline }]

def proposed : ProposedArgs := ⟨[(['x'], ['a']), (['x'], ['b'])]⟩

/-- The values are joined for the first input, so the second reads one item where two were given. -/
theorem second_list_reads_one_item :
    ¬∀ joined, spec.joinRepeats proposed = .ok joined → ∀ input ∈ spec.inputs,
      ∀ separator, input.list = some separator → ∀ value, joined.get input.name = some value →
        separator.split value = (proposed.valuesOf input.name).flatMap separator.split := by
  intro all
  have items := all ⟨[(['x'], ['a', ',', 'b'])]⟩ rfl { name := ['x'], list := some .newline }
    (by decide) .newline rfl ['a', ',', 'b'] rfl
  revert items
  decide

end OneNameTwoInputsExample

end Ikigai
