import Ikigai.JoinedCalls

/-!
# What a conforming call is

The rules a contract documents, stated of a call whose repeats are joined: a name that is no list
is given once, what is required is given, every item is accepted, what is given has what it needs,
every group holds, every name is declared. An envelope's fields and their groups bind a call that
proposes fields, its carrier any other. The checker reports nothing exactly then, but for a
repeat of a name that no input it looks at bears, and for groups of an envelope's fields, which it
holds every call to.
-/

namespace Ikigai

namespace ArgSpec

/-- The items of a value: a list's, or the value itself. -/
def itemsOf (input : ArgSpec) (value : Text) : List Text :=
  match input.list with
  | some separator => separator.split value
  | none => [value]

/-- An item is among the accepted values and plausible for the class. -/
def Accepts (input : ArgSpec) (item : Text) : Prop :=
  (input.isEnumerated = true → item ∈ input.oneOf) ∧
    ∀ declared, input.class = some declared → plausibleFor declared item = true

/-- What an input asks of a call. -/
structure Met (input : ArgSpec) (effective : ProposedArgs) : Prop where
  present : input.required = true → input.source ≠ .binding →
    ∃ value, effective.get input.name = some value
  accepted : ∀ value, effective.get input.name = some value →
    ∀ item ∈ input.itemsOf value, input.Accepts item
  noted : ∀ value, effective.get input.name = some value → ∀ item ∈ input.itemsOf value,
    ∀ note, input.note item = some note → ∀ needed ∈ note.needs,
      given (effective.get needed) = true
  needed : given (effective.get input.name) = true → ∀ needed ∈ input.needs,
    given (effective.get needed) = true

end ArgSpec

/-- As many members are given as the group's kind asks for. -/
def InputGroup.Holds (group : InputGroup) (effective : ProposedArgs) : Prop :=
  let present := group.members.countP fun member => given (effective.get member)
  match group.kind with
  | .exactlyOne => present = 1
  | .atLeastOne => 1 ≤ present
  | .atMostOne => present ≤ 1

namespace ActionSpec

/-- The call gives an input other than the carrier: a field. -/
def FieldsProposed (spec : ActionSpec) (carrier : Text) (effective : ProposedArgs) : Prop :=
  ∃ input ∈ spec.inputs, input.name ≠ carrier ∧ given (effective.get input.name) = true

/-- The call is about a name: of an envelope, the fields when it proposes some, else the carrier. -/
def IsAbout (spec : ActionSpec) (effective : ProposedArgs) (name : Text) : Prop :=
  match spec.arguments with
  | .closed | .open _ => True
  | .envelope carrier =>
    (spec.FieldsProposed carrier effective → name ≠ carrier) ∧
      (¬spec.FieldsProposed carrier effective → name = carrier)

/-- The call is about some member of a group. -/
def IsAboutGroup (spec : ActionSpec) (effective : ProposedArgs) (group : InputGroup) : Prop :=
  match spec.arguments with
  | .closed | .open _ => True
  | .envelope _ => ∃ member ∈ group.members, spec.IsAbout effective member

/-- Every name is an input's, unless arguments are open. -/
def Declares (spec : ActionSpec) (proposed : ProposedArgs) : Prop :=
  (∀ summary, spec.arguments ≠ .open summary) →
    ∀ pair ∈ proposed.pairs, ∃ input ∈ spec.inputs, input.name = pair.1

/-- The body of an envelope is not given both as its carrier and as fields. -/
def GivesBodyOnce (spec : ActionSpec) (effective : ProposedArgs) : Prop :=
  ∀ carrier, spec.arguments = .envelope carrier → spec.FieldsProposed carrier effective →
    given (effective.get carrier) = false

/-- Every rule a contract documents, of a proposed call. -/
structure Conforms (spec : ActionSpec) (proposed : ProposedArgs) : Prop where
  once : ∀ name, spec.separatorOf name = none → (proposed.valuesOf name).length ≤ 1
  inputs : ∀ input ∈ spec.inputs, spec.IsAbout (spec.joined proposed).1 input.name →
    input.Met (spec.joined proposed).1
  groups : ∀ group ∈ spec.groups, spec.IsAboutGroup (spec.joined proposed).1 group →
    group.Holds (spec.joined proposed).1
  declared : spec.Declares proposed
  bodyOnce : spec.GivesBodyOnce (spec.joined proposed).1

end ActionSpec

/-- A violation is reported exactly where something breaks. -/
theorem reported_eq_nil_iff {breaks : Prop} [Decidable breaks] {violation : Violation} :
    (if breaks then [violation] else []) = [] ↔ ¬breaks := by
  split
  · rename_i broken
    exact ⟨nofun, fun kept => absurd broken kept⟩
  · rename_i kept
    exact ⟨fun _ => kept, fun _ => rfl⟩

namespace ArgSpec

/-- No violation is found of a value exactly when the input accepts it. -/
theorem check_value_eq_none_iff (input : ArgSpec) (item : Text) :
    input.checkValue item = none ↔ input.Accepts item := by
  rw [checkValue, Accepts]
  by_cases outside : input.isEnumerated && !input.oneOf.any fun accepted => accepted = item
  · rw [if_pos outside]
    obtain ⟨enumerated, absent⟩ : input.isEnumerated = true ∧ ∀ accepted ∈ input.oneOf,
      ¬accepted = item := by simpa using outside
    exact ⟨nofun, fun accepts => absurd rfl (absent item (accepts.1 enumerated))⟩
  · rw [if_neg outside]
    have within : input.isEnumerated = true → item ∈ input.oneOf := by simpa using outside
    cases input.class with
    | none => exact ⟨fun _ => ⟨within, nofun⟩, fun _ => rfl⟩
    | some declared =>
      simp only [Option.some.injEq, forall_eq', ite_eq_left_iff, reduceCtorEq, imp_false, not_not]
      exact ⟨fun alike => ⟨within, alike⟩, fun accepts => accepts.2⟩

/-- Nothing is missing exactly when all that is needed was given. -/
theorem missing_eq_nil_iff (effective : ProposedArgs) (needs : List Text) :
    missing effective needs = [] ↔ ∀ needed ∈ needs, given (effective.get needed) = true := by
  rw [missing, List.filter_eq_nil_iff]
  simp

/-- No violation is found of a described value exactly when what it needs was given. -/
theorem check_note_eq_none_iff (input : ArgSpec) (effective : ProposedArgs) (item : Text) :
    input.checkNote effective item = none ↔ ∀ note, input.note item = some note →
      ∀ needed ∈ note.needs, given (effective.get needed) = true := by
  rw [checkNote]
  cases input.note item with
  | none => simp
  | some note =>
    simp only [Option.some.injEq, forall_eq', List.isEmpty_iff, missing_eq_nil_iff]
    split
    · rename_i met
      exact ⟨fun _ => met, fun _ => rfl⟩
    · rename_i lacking
      exact ⟨nofun, fun met => absurd met lacking⟩

/-- Of an input that was given, its value is checked: that it is given once, and each item of it.
-/
theorem check_of_value (input : ArgSpec) (effective : ProposedArgs) (repeated : List Text)
    {value : Text} (there : effective.get input.name = some value) :
    input.check effective repeated =
      (if input.name ∈ repeated then
        [input.violation .givenTwice (ticked input.name ++ " is ".toList ++ givenTwice)]
      else []) ++
      ((input.itemsOf value).filterMap input.checkValue ++
        (firstSeen (input.itemsOf value)).filterMap (input.checkNote effective) ++
        if given (some value) && !(missing effective input.needs).isEmpty then
          [input.violation .needs
            (ticked input.name ++ " needs ".toList ++ quoted (missing effective input.needs))]
        else []) := by
  rw [check, there]
  rfl

/-- An input that was not given is met exactly when it is not required, or is bound by the door.
-/
theorem met_of_none (input : ArgSpec) {effective : ProposedArgs}
    (absent : effective.get input.name = none) :
    input.Met effective ↔ ¬(input.required = true ∧ input.source ≠ .binding) := by
  constructor
  · rintro met ⟨required, named⟩
    obtain ⟨value, there⟩ := met.present required named
    rw [absent] at there
    cases there
  · intro spared
    refine ⟨fun required named => absurd ⟨required, named⟩ spared, ?_, ?_, ?_⟩
    · rw [absent]
      exact nofun
    · rw [absent]
      exact nofun
    · rw [absent]
      exact nofun

/-- An input that was given is met exactly when each of its items is accepted and has what it
needs. -/
theorem met_of_value (input : ArgSpec) {effective : ProposedArgs} {value : Text}
    (there : effective.get input.name = some value) :
    input.Met effective ↔
      ((∀ item ∈ input.itemsOf value, input.Accepts item) ∧
        ∀ item ∈ input.itemsOf value, ∀ note, input.note item = some note →
          ∀ needed ∈ note.needs, given (effective.get needed) = true) ∧
      (given (some value) = true → ∀ needed ∈ input.needs,
        given (effective.get needed) = true) := by
  constructor
  · intro met
    refine ⟨⟨met.accepted value there, met.noted value there⟩, ?_⟩
    rw [← there]
    exact met.needed
  · rintro ⟨⟨accepted, noted⟩, needed⟩
    refine ⟨fun _ _ => ⟨value, there⟩, ?_, ?_, ?_⟩
    · rw [there]
      rintro _ ⟨⟩
      exact accepted
    · rw [there]
      rintro _ ⟨⟩
      exact noted
    · rw [there]
      exact needed

/-- An input is reported unless it is given once and what it asks is met. -/
theorem check_eq_nil_iff (input : ArgSpec) (effective : ProposedArgs) (repeated : List Text) :
    input.check effective repeated = [] ↔ input.name ∉ repeated ∧ input.Met effective := by
  cases there : effective.get input.name with
  | none =>
    rw [check, there, List.append_eq_nil_iff, met_of_none input there]
    refine and_congr reported_eq_nil_iff ?_
    rw [reported_eq_nil_iff, Bool.and_eq_true, decide_eq_true_eq]
  | some value =>
    rw [check_of_value input effective repeated there, List.append_eq_nil_iff,
      met_of_value input there]
    refine and_congr reported_eq_nil_iff ?_
    rw [List.append_eq_nil_iff, List.append_eq_nil_iff, List.filterMap_eq_nil_iff,
      List.filterMap_eq_nil_iff, reported_eq_nil_iff]
    refine and_congr (and_congr ?_ ?_) ?_
    · exact forall₂_congr fun item _ => check_value_eq_none_iff input item
    · simp only [mem_first_seen, check_note_eq_none_iff]
    · rw [← missing_eq_nil_iff, Bool.and_eq_true, Bool.not_eq_true', List.isEmpty_eq_false_iff,
        not_and, not_not]

end ArgSpec

/-- No violation is found of a group exactly when it holds. -/
theorem InputGroup.check_eq_none_iff (group : InputGroup) (effective : ProposedArgs) :
    group.check effective = none ↔ group.Holds effective := by
  rw [InputGroup.check, InputGroup.Holds, List.countP_eq_length_filter]
  generalize group.members.filter (fun member => given (effective.get member)) = present
  cases group.kind <;> cases present <;> simp

namespace ActionSpec

variable (spec : ActionSpec) (proposed effective : ProposedArgs)

/-- The checker looks at an input: at those the call is about, and at every binding unless it is the
carrier. -/
def LooksAt (input : ArgSpec) : Prop :=
  skipped (spec.carrier effective).1 (spec.carrier effective).2 input = false

/-- Whether fields are given beside the carrier is whether fields are proposed. -/
theorem fields_given_iff {carrier : Text} (envelope : spec.arguments = .envelope carrier) :
    (spec.carrier effective).2 = true ↔ spec.FieldsProposed carrier effective := by
  simp [ActionSpec.carrier, envelope, FieldsProposed]

/-- An envelope's carrier is the input it names. -/
theorem carrier_of_envelope {carrier : Text} (envelope : spec.arguments = .envelope carrier) :
    (spec.carrier effective).1 = some carrier := by
  simp [ActionSpec.carrier, envelope]

/-- What the arguments are about is looked at. -/
theorem looks_at_of_about {input : ArgSpec} (about : spec.IsAbout effective input.name) :
    spec.LooksAt effective input := by
  rw [IsAbout] at about
  rw [LooksAt]
  cases kind : spec.arguments with
  | closed => simp [ActionSpec.carrier, kind, skipped]
  | «open» => simp [ActionSpec.carrier, kind, skipped]
  | envelope carrier =>
    rw [kind] at about
    rw [spec.carrier_of_envelope effective kind, skipped]
    by_cases fields : spec.FieldsProposed carrier effective
    · rw [(spec.fields_given_iff effective kind).mpr fields, if_pos rfl]
      exact decide_eq_false (about.1 fields)
    · have none : (spec.carrier effective).2 = false := by
        rw [← Bool.not_eq_true, spec.fields_given_iff effective kind]
        exact fields
      simp [none, about.2 fields]

/-- No violation is found of an envelope exactly when the body is given once. -/
theorem check_envelope_eq_nil_iff :
    checkEnvelope (spec.carrier effective).1 (spec.carrier effective).2 effective = [] ↔
      spec.GivesBodyOnce effective := by
  rw [GivesBodyOnce]
  cases kind : spec.arguments with
  | closed => simp [ActionSpec.carrier, kind, checkEnvelope]
  | «open» => simp [ActionSpec.carrier, kind, checkEnvelope]
  | envelope carrier =>
    rw [spec.carrier_of_envelope effective kind, checkEnvelope, reported_eq_nil_iff, Bool.and_eq_true,
      spec.fields_given_iff effective kind, not_and, Bool.not_eq_true]
    constructor
    · rintro once _ ⟨⟩
      exact once
    · exact fun once => once carrier rfl

/-- No argument is unknown exactly when all are declared. -/
theorem unknown_eq_nil_iff : spec.unknown proposed = [] ↔ spec.Declares proposed := by
  have declared : (proposed.names.filter fun name =>
      !spec.inputs.any fun input => decide (input.name = name)) = [] ↔
        ∀ pair ∈ proposed.pairs, ∃ input ∈ spec.inputs, input.name = pair.1 := by
    rw [List.filter_eq_nil_iff, ProposedArgs.names]
    simp only [mem_first_seen, List.mem_map, Bool.not_eq_true, Bool.not_eq_false',
      List.any_eq_true, decide_eq_true_eq]
    constructor
    · exact fun all pair member => all pair.1 ⟨pair, member, rfl⟩
    · rintro all _ ⟨pair, member, rfl⟩
      exact all pair member
  rw [unknown, Declares]
  cases spec.arguments with
  | closed =>
    have shut : ∀ summary, Arguments.closed ≠ .open summary := by simp
    rw [declared]
    exact ⟨fun all _ => all, fun all => all shut⟩
  | «open» summary => exact ⟨fun _ closed => absurd rfl (closed summary), fun _ => rfl⟩
  | envelope carrier =>
    have shut : ∀ summary, Arguments.envelope carrier ≠ .open summary := by simp
    rw [declared]
    exact ⟨fun all _ => all, fun all => all shut⟩

/-- A name is reported repeated exactly when it was given more than once and is not a list. -/
theorem mem_repeated (name : Text) :
    name ∈ (spec.joined proposed).2 ↔
      spec.separatorOf name = none ∧ 1 < (proposed.valuesOf name).length := by
  rw [joined, List.mem_filter, joined_of_repeated]
  refine ⟨And.right, fun repeated => ⟨?_, repeated⟩⟩
  rw [← ProposedArgs.values_of_ne_nil]
  exact List.ne_nil_of_length_pos (Nat.zero_lt_of_lt repeated.2)

/-- What an empty report says of a call. -/
theorem check_eq_nil_iff :
    spec.check proposed = [] ↔
      spec.GivesBodyOnce (spec.joined proposed).1 ∧
      (∀ input ∈ spec.inputs, spec.LooksAt (spec.joined proposed).1 input →
        ¬(spec.separatorOf input.name = none ∧ 1 < (proposed.valuesOf input.name).length) ∧
          input.Met (spec.joined proposed).1) ∧
      (∀ group ∈ spec.groups, group.Holds (spec.joined proposed).1) ∧
      spec.Declares proposed := by
  rw [check]
  simp only [List.append_eq_nil_iff, List.map_eq_nil_iff, List.flatMap_eq_nil_iff, List.mem_filter,
    List.filterMap_eq_nil_iff, InputGroup.check_eq_none_iff, unknown_eq_nil_iff,
    check_envelope_eq_nil_iff, ArgSpec.check_eq_nil_iff, mem_repeated, Bool.not_eq_true', and_imp,
    and_assoc]
  rfl

/-- The call keeps every rule, but perhaps for a repeat of a name that no input looked at bears. -/
structure KeepsRest : Prop where
  once : ∀ input ∈ spec.inputs, spec.LooksAt (spec.joined proposed).1 input →
    spec.separatorOf input.name = none → (proposed.valuesOf input.name).length ≤ 1
  inputs : ∀ input ∈ spec.inputs, spec.IsAbout (spec.joined proposed).1 input.name →
    input.Met (spec.joined proposed).1
  groups : ∀ group ∈ spec.groups, spec.IsAboutGroup (spec.joined proposed).1 group →
    group.Holds (spec.joined proposed).1
  declared : spec.Declares proposed
  bodyOnce : spec.GivesBodyOnce (spec.joined proposed).1

/-- A name that is no list and given more than once is borne by an input that is looked at. -/
def RepeatsSeen : Prop :=
  ∀ name, spec.separatorOf name = none → 1 < (proposed.valuesOf name).length →
    ∃ input ∈ spec.inputs, spec.LooksAt (spec.joined proposed).1 input ∧ input.name = name

/-- What the call is not about holds of it as well, as far as it is looked at: an envelope's bindings
when its carrier is given, and its groups. -/
structure RestHolds : Prop where
  inputs : ∀ input ∈ spec.inputs, spec.LooksAt (spec.joined proposed).1 input →
    ¬spec.IsAbout (spec.joined proposed).1 input.name → input.Met (spec.joined proposed).1
  groups : ∀ group ∈ spec.groups, ¬spec.IsAboutGroup (spec.joined proposed).1 group →
    group.Holds (spec.joined proposed).1

/-- Nothing is found exactly when the call keeps every rule but for repeats that are not seen, and
what it is not about holds as well. -/
theorem check_eq_nil_iff_rest :
    spec.check proposed = [] ↔ spec.KeepsRest proposed ∧ spec.RestHolds proposed := by
  rw [check_eq_nil_iff]
  constructor
  · rintro ⟨bodyOnce, inputs, groups, declared⟩
    refine ⟨⟨?_, ?_, ?_, declared, bodyOnce⟩, ?_, ?_⟩
    · intro input member looked plain
      exact Nat.le_of_not_lt fun more => (inputs input member looked).1 ⟨plain, more⟩
    · exact fun input member about =>
        (inputs input member (spec.looks_at_of_about _ about)).2
    · exact fun group member _ => groups group member
    · exact fun input member looked _ => (inputs input member looked).2
    · exact fun group member _ => groups group member
  · rintro ⟨keeps, rest⟩
    refine ⟨keeps.bodyOnce, fun input member looked => ⟨?_, ?_⟩, fun group member => ?_,
      keeps.declared⟩
    · rintro ⟨plain, more⟩
      exact absurd (keeps.once input member looked plain) (Nat.not_le_of_lt more)
    · by_cases about : spec.IsAbout (spec.joined proposed).1 input.name
      · exact keeps.inputs input member about
      · exact rest.inputs input member looked about
    · by_cases about : spec.IsAboutGroup (spec.joined proposed).1 group
      · exact keeps.groups group member about
      · exact rest.groups group member about

/-- A call conforms exactly when it keeps those rules and every repeat is seen. -/
theorem conforms_iff_rest :
    spec.Conforms proposed ↔ spec.KeepsRest proposed ∧ spec.RepeatsSeen proposed := by
  constructor
  · intro conforms
    refine ⟨⟨?_, conforms.inputs, conforms.groups, conforms.declared, conforms.bodyOnce⟩, ?_⟩
    · exact fun input _ _ => conforms.once input.name
    · intro name plain more
      exact absurd (conforms.once name plain) (Nat.not_le_of_lt more)
  · rintro ⟨keeps, seen⟩
    refine ⟨?_, keeps.inputs, keeps.groups, keeps.declared, keeps.bodyOnce⟩
    intro name plain
    by_contra more
    obtain ⟨input, member, looked, rfl⟩ := seen name plain (Nat.lt_of_not_le more)
    exact more (keeps.once input member looked plain)

/-- The report is empty exactly when the call conforms, if and only if, of a call that keeps the
rest, every repeat is seen exactly when what the call is not about holds. -/
theorem check_tells_iff :
    (spec.check proposed = [] ↔ spec.Conforms proposed) ↔
      (spec.KeepsRest proposed → (spec.RepeatsSeen proposed ↔ spec.RestHolds proposed)) := by
  rw [check_eq_nil_iff_rest, conforms_iff_rest]
  tauto

/-- Of a closed action, the report is empty exactly when the call conforms. -/
theorem closed_check_tells (closed : spec.arguments = .closed) :
    spec.check proposed = [] ↔ spec.Conforms proposed := by
  rw [check_eq_nil_iff_rest, conforms_iff_rest]
  refine and_congr_right fun keeps => ⟨fun _ name plain more => ?_, fun _ => ⟨?_, ?_⟩⟩
  · have given : name ∈ proposed.names := by
      rw [← ProposedArgs.values_of_ne_nil]
      exact List.ne_nil_of_length_pos (Nat.zero_lt_of_lt more)
    rw [ProposedArgs.names, mem_first_seen, List.mem_map] at given
    obtain ⟨pair, member, rfl⟩ := given
    obtain ⟨input, declared, same⟩ := keeps.declared (by simp [closed]) pair member
    exact ⟨input, declared, spec.looks_at_of_about _ (by simp [IsAbout, closed]), same⟩
  · exact fun input _ _ about => absurd (by simp [IsAbout, closed]) about
  · exact fun group _ about => absurd (by simp [IsAboutGroup, closed]) about

end ActionSpec

namespace OpenRepeatExample

/-- An action without inputs that admits any name. -/
def spec : ActionSpec where
  verb := .source
  arguments := .open "anything".toList

def proposed : ProposedArgs := ⟨[(['x'], ['1']), (['x'], ['2'])]⟩

/-- A name that is declared by none is given twice, and nothing is reported. -/
theorem repeat_not_reported : ¬(spec.check proposed = [] ↔ spec.Conforms proposed) := by
  intro tells
  have once := (tells.mp (by decide)).once ['x'] rfl
  revert once
  decide

end OpenRepeatExample

namespace EnvelopeGroupExample

/-- A form whose fields are one of two, inside its content. -/
def spec : ActionSpec where
  verb := .sink
  inputs := [{ name := ['c'] }, { name := ['a'], required := false },
    { name := ['b'], required := false }]
  groups := [{ kind := .exactlyOne, members := [['a'], ['b']] }]
  arguments := .envelope ['c']

/-- A call with its content alone is reported for the group of the fields inside it. -/
example : (spec.check ⟨[(['c'], ['a', '=', '1'])]⟩).map Violation.kind = [.exactlyOne] := by decide

end EnvelopeGroupExample

end Ikigai
