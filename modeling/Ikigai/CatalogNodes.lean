import Ikigai.NodeSpelling

/-!
# The nodes of a catalog

Every node a catalog writes hangs off an endpoint's or a contract's IRI, by a suffix of
encoded names behind fixed words. A colon is not encoded, so a name may spell a word of its
own: an input and a described value, two described values, or a node of one owner and a
node of another can read alike. The nodes stay apart exactly in a catalog whose names do
none of that, and a violation's node is always one the catalog writes.
-/

namespace Ikigai

/-- What nodes hang off: an endpoint, or a contract under an id. -/
inductive CatalogOwner where
  | endpoint (id : Text)
  | contract (id : Text) (spec : ActionSpec)

/-- A node under an owner: the owner itself, an input, a described value or a group. -/
inductive CatalogNode where
  | self
  | input (name : Text)
  | value (name item : Text)
  | group (members : InputGroup)

def endpointPrefix : Text := "urn:ikigai:endpoint:".toList

namespace CatalogOwner

def iri [ContentHash] : CatalogOwner → Text
  | endpoint id => endpointPrefix ++ encodeName id
  | contract id spec => spec.contractIri id

/-- One and the same: endpoints of one id, contracts of one id and content. -/
def Same : CatalogOwner → CatalogOwner → Prop
  | endpoint id, endpoint id' => id = id'
  | contract id spec, contract id' spec' => id = id' ∧ spec.SameContent spec'
  | _, _ => False

end CatalogOwner

namespace CatalogNode

/-- How a node's IRI continues its owner's. -/
def suffix : CatalogNode → Text
  | self => []
  | input name => ":input:".toList ++ encodeName name
  | value name item =>
    ":input:".toList ++ encodeName name ++ ":value:".toList ++ encodeName item
  | group members => ":".toList ++ members.nodeSegment

/-- One and the same under one owner: a group is its kind and the set of its members. -/
def Same : CatalogNode → CatalogNode → Prop
  | self, self => True
  | input name, input name' => name = name'
  | value name item, value name' item' => name = name' ∧ item = item'
  | group left, group right => left.kind = right.kind ∧
      OrderedSet.ofList left.members = OrderedSet.ofList right.members
  | _, _ => False

/-- The nodes written under an owner, as what they hang off names them. -/
def hungOff (inputs : List ArgSpec) (groups : List InputGroup) (arguments : Arguments)
    (outputFrom : Option OutputFrom) : List CatalogNode :=
  self ::
    (inputs.flatMap fun spec =>
      input spec.name :: spec.needs.map input ++
        spec.values.flatMap fun described =>
          value spec.name described.1 :: described.2.needs.map input) ++
    (groups.flatMap fun members =>
      group members :: members.members.map input ++ members.pipe.toList.map input) ++
    (match arguments with
      | .envelope carrier => [input carrier]
      | .closed | .open _ => []) ++
    match outputFrom with
    | some (.input name) => [input name]
    | some .origin | none => []

end CatalogNode

/-- A node of a catalog. -/
structure CatalogThing where
  owner : CatalogOwner
  node : CatalogNode

namespace CatalogThing

def iri [ContentHash] (thing : CatalogThing) : Text := thing.owner.iri ++ thing.node.suffix

def Same (left right : CatalogThing) : Prop :=
  left.owner.Same right.owner ∧ left.node.Same right.node

end CatalogThing

/-- The nodes of a contract. -/
def ActionSpec.catalogThings (spec : ActionSpec) (id : Text) : List CatalogThing :=
  (CatalogNode.hungOff spec.inputs spec.groups spec.arguments spec.outputFrom).map
    fun node => ⟨.contract id spec, node⟩

/-- The nodes a description is rendered to. -/
def Description.catalogThings (description : Description) : List CatalogThing :=
  (CatalogNode.hungOff description.inputs description.groups description.arguments
      description.outputFrom).map (fun node => ⟨.endpoint description.id, node⟩) ++
    description.actionSpecs.flatMap fun spec => spec.catalogThings description.id

/-- The nodes of a catalog. -/
def catalogThings (catalog : List Description) : List CatalogThing :=
  catalog.flatMap Description.catalogThings

/-- A path is of a node. -/
def ViolationPath.Names : ViolationPath → CatalogNode → Prop
  | .input name, node => node = .input name
  | .group segment, node => ∃ group, node = .group group ∧ group.nodeSegment = segment
  | .value name item, node => node = .value name item

/-- The members of a group as its node lists them: each once, in the order of their segments. -/
def InputGroup.listed (group : InputGroup) : List Text :=
  (OrderedSet.ofList (group.members.map memberSegment)).items.filterMap decodeSegment

/-- How a node is spelled behind its owner: the names between the fixed words. -/
def CatalogNode.spelling : CatalogNode → Spelling
  | self => []
  | input name => Spelling.name (":input:".toList ++ name)
  | value name item => Spelling.name (":input:".toList ++ name ++ ":value:".toList ++ item)
  | group members =>
    Spelling.name (":group:".toList ++ members.kind.word ++ ":".toList) ++
      [Glyph.char ','].intercalate (members.listed.map Spelling.member)

/-- The nodes hung off an endpoint. -/
def Description.nodes (description : Description) : List CatalogNode :=
  CatalogNode.hungOff description.inputs description.groups description.arguments
    description.outputFrom

/-- The nodes hung off a contract. -/
def ActionSpec.nodes (spec : ActionSpec) : List CatalogNode :=
  CatalogNode.hungOff spec.inputs spec.groups spec.arguments spec.outputFrom

/-- What a contract's IRI has behind its endpoint's id: the verb, and the digest of what is fed. -/
def ActionSpec.mark [ContentHash] (spec : ActionSpec) (id : Text) : Text :=
  ":".toList ++ verbSegment spec.verb ++ ":".toList ++
    ContractDigest.text ⟨ContentHash.digest (spec.contractBytes id)⟩

/-- Owners that are named alike: endpoints of one id, contracts of which the same is fed. -/
def CatalogOwner.Alike : CatalogOwner → CatalogOwner → Prop
  | endpoint id, endpoint id' => id = id'
  | contract id spec, contract id' spec' => spec.contractBytes id = spec'.contractBytes id'
  | _, _ => False

namespace CatalogNode

/-- Two nodes of one owner that are not the same and read alike. -/
def Clash : CatalogNode → CatalogNode → Prop
  | input name', value name item => name' = name ++ ":value:".toList ++ item
  | value name item, value name' item' =>
    name ++ ":value:".toList ++ item = name' ++ ":value:".toList ++ item' ∧
      ¬(name = name' ∧ item = item')
  | group left, group right => left.kind = right.kind ∧ left.members = [] ∧
      OrderedSet.ofList right.members = OrderedSet.ofList [[]]
  | _, _ => False

/-- A value's segment behind its input's is the encoding of one text. -/
theorem encoded_value (name item : Text) :
    encodeName name ++ ":value:".toList ++ encodeName item =
      encodeName (name ++ ":value:".toList ++ item) := by
  have word : encodeName ":value:".toList = ":value:".toList := by
    simp [encodeName, encodeWhere, mustEncode, isIriForbidden, isNonUcschar]
  rw [encode_name_append, encode_name_append, word]

/-- The kinds' words differ in their first letters. -/
theorem kinds_of_segments (kind kind' : GroupKind) (rest rest' : Text)
    (same : kind.word ++ ":".toList ++ rest = kind'.word ++ ":".toList ++ rest') :
    kind = kind' ∧ rest = rest' := by
  have long : ∀ kind : GroupKind, 4 ≤ kind.word.length := by
    intro kind
    cases kind <;> decide
  have heads : kind.word.take 4 = kind'.word.take 4 := by
    have taken := congrArg (List.take 4) same
    rwa [List.append_assoc, List.append_assoc, List.take_append_of_le_length (long kind),
      List.take_append_of_le_length (long kind')] at taken
  have kinds : kind = kind' := by
    revert heads
    cases kind <;> cases kind' <;> first | exact fun _ => rfl | decide
  subst kinds
  exact ⟨rfl, List.append_cancel_left same⟩

/-- Two groups have one set of segments exactly when they have one set of members: members are
escaped one to one. -/
theorem members_same_iff (left right : List Text) :
    OrderedSet.ofList (left.map InputGroup.memberSegment) =
        OrderedSet.ofList (right.map InputGroup.memberSegment) ↔
      OrderedSet.ofList left = OrderedSet.ofList right := by
  have members : ∀ names : List Text, ∀ name,
      InputGroup.memberSegment name ∈ OrderedSet.ofList (names.map InputGroup.memberSegment) ↔
        name ∈ OrderedSet.ofList names := by
    intro names name
    rw [OrderedSet.mem_of_list, OrderedSet.mem_of_list,
      List.mem_map_of_injective InputGroup.member_segment_injective]
  constructor
  · intro same
    apply OrderedSet.eq_of_mem
    intro name
    rw [← members left, ← members right, same]
  · intro same
    apply OrderedSet.eq_of_mem
    intro segment
    simp only [OrderedSet.mem_of_list, List.mem_map]
    constructor
    · rintro ⟨name, member, rfl⟩
      exact ⟨name, (OrderedSet.mem_of_list _ _).mp (same ▸ (OrderedSet.mem_of_list _ _).mpr member),
        rfl⟩
    · rintro ⟨name, member, rfl⟩
      exact ⟨name, (OrderedSet.mem_of_list _ _).mp
        (same.symm ▸ (OrderedSet.mem_of_list _ _).mpr member), rfl⟩

/-- An input hangs from its owner by its encoded name. -/
theorem input_suffix (name : Text) : (input name).suffix = ":input:".toList ++ encodeName name :=
  rfl

/-- A group hangs from it by its kind and its members' segments, in order. -/
theorem group_suffix (members : InputGroup) :
    (group members).suffix = ":".toList ++ ("group:".toList ++ (members.kind.word ++ ":".toList ++
      ",".toList.intercalate
        (OrderedSet.ofList (members.members.map InputGroup.memberSegment)).items)) :=
  congrArg (":".toList ++ ·)
    ((congrArg (· ++ _) (List.append_assoc _ _ _)).trans (List.append_assoc _ _ _))

/-- A described value hangs from it by its input's name and its own, in one encoding. -/
theorem value_suffix (name item : Text) :
    (value name item).suffix = ":input:".toList ++ encodeName (name ++ ":value:".toList ++ item) := by
  have spelled : (value name item).suffix =
      ":input:".toList ++ encodeName name ++ ":value:".toList ++ encodeName item := rfl
  rw [spelled, ← encoded_value, List.append_assoc, List.append_assoc, List.append_assoc]

/-- Two inputs have one suffix exactly when they have one name. -/
theorem input_words_same (left right : Text) :
    ":input:".toList ++ encodeName left = ":input:".toList ++ encodeName right ↔ left = right :=
  (List.append_right_inj _).trans encode_name_injective.eq_iff

/-- A group's suffix is no input's. -/
theorem group_apart (name : Text) (members : InputGroup) :
    (group members).suffix ≠ ":input:".toList ++ encodeName name := by
  intro same
  rw [group_suffix] at same
  have words : [':', 'g'] = [':', 'i'] := congrArg (List.take 2) same
  exact absurd words (by decide)

/-- The group without members and the group of the empty name read alike. -/
theorem group_suffix_iff (left right : InputGroup) :
    (group left).suffix = (group right).suffix ↔
      (group left).Same (group right) ∨ (group left).Clash (group right) ∨
        (group right).Clash (group left) := by
  have nothing : OrderedSet.ofList (([] : List Text).map InputGroup.memberSegment) =
      OrderedSet.empty := rfl
  have blank : OrderedSet.ofList ([[]].map InputGroup.memberSegment) = OrderedSet.ofList [[]] := rfl
  have none_iff : ∀ names : List Text,
      (OrderedSet.ofList (names.map InputGroup.memberSegment)).items = [] ↔ names = [] := by
    intro names
    rw [← List.isEmpty_iff, ArgSpec.of_list_is_empty, List.isEmpty_iff, List.map_eq_nil_iff]
  have blank_iff : ∀ names : List Text,
      (OrderedSet.ofList (names.map InputGroup.memberSegment)).items = [[]] ↔
        OrderedSet.ofList names = OrderedSet.ofList [[]] := by
    intro names
    rw [← members_same_iff, blank]
    exact ⟨fun same => OrderedSet.ext same, congrArg OrderedSet.items⟩
  have plain : ∀ names : List Text,
      ∀ item ∈ (OrderedSet.ofList (names.map InputGroup.memberSegment)).items, ',' ∉ item := by
    intro names item member
    obtain ⟨name, _, rfl⟩ := List.mem_map.mp ((OrderedSet.mem_of_list _ _).mp member)
    exact InputGroup.member_without_comma name
  constructor
  · intro same
    rw [group_suffix, group_suffix] at same
    obtain ⟨kinds, joined⟩ := kinds_of_segments _ _ _ _
      ((List.append_right_inj _).mp ((List.append_right_inj _).mp same))
    rcases joined_same _ _ (plain left.members) (plain right.members) joined with
      same | ⟨none, one⟩ | ⟨one, none⟩
    · exact .inl ⟨kinds, (members_same_iff _ _).mp (OrderedSet.ext same)⟩
    · exact .inr (.inl ⟨kinds, (none_iff _).mp none, (blank_iff _).mp one⟩)
    · exact .inr (.inr ⟨kinds.symm, (none_iff _).mp none, (blank_iff _).mp one⟩)
  · have segments : ∀ left right : InputGroup, left.kind = right.kind →
        ",".toList.intercalate (OrderedSet.ofList
            (left.members.map InputGroup.memberSegment)).items =
          ",".toList.intercalate (OrderedSet.ofList
            (right.members.map InputGroup.memberSegment)).items →
        (group left).suffix = (group right).suffix := by
      intro left right kinds joined
      rw [group_suffix, group_suffix, kinds, joined]
    rintro (⟨kinds, members⟩ | ⟨kinds, none, one⟩ | ⟨kinds, none, one⟩)
    · exact segments left right kinds (by rw [(members_same_iff _ _).mpr members])
    · exact segments left right kinds
        (by rw [(none_iff _).mpr none, (blank_iff _).mpr one]; rfl)
    · exact (segments right left kinds
        (by rw [(none_iff _).mpr none, (blank_iff _).mpr one]; rfl)).symm

/-- A node that is not its owner continues the owner's IRI. -/
theorem suffix_nonempty (node : CatalogNode) (other : node ≠ self) : node.suffix ≠ [] := by
  intro nothing
  have width := congrArg List.length nothing
  cases node with
  | self => exact other rfl
  | input name =>
    rw [input_suffix, List.length_append] at width
    cases (Nat.add_eq_zero_iff.mp width).1
  | value name item =>
    rw [value_suffix, List.length_append] at width
    cases (Nat.add_eq_zero_iff.mp width).1
  | group members =>
    rw [group_suffix, List.length_append] at width
    cases (Nat.add_eq_zero_iff.mp width).1

/-- Another node's suffix is the owner's own, which is empty, only where the two are one or clash.
-/
theorem apart_self (node : CatalogNode) (other : node ≠ self) :
    node.suffix = self.suffix ↔ node.Same self ∨ node.Clash self ∨ self.Clash node := by
  refine iff_of_false (suffix_nonempty node other) ?_
  cases node <;> first | exact absurd rfl other | simp only [Same, Clash, or_self, not_false_iff]

/-- So it is the other way round. -/
theorem self_apart (node : CatalogNode) (other : node ≠ self) :
    self.suffix = node.suffix ↔ self.Same node ∨ self.Clash node ∨ node.Clash self := by
  refine iff_of_false (Ne.symm (suffix_nonempty node other)) ?_
  cases node <;> first | exact absurd rfl other | simp only [Same, Clash, or_self, not_false_iff]

/-- Nodes that clash are not the same. -/
theorem not_same_of_clash (left right : CatalogNode) (clash : left.Clash right) :
    ¬left.Same right := by
  intro same
  cases left with
  | self => exact clash
  | input name =>
    cases right with
    | value name' item' => exact same
    | self => exact clash
    | input name' => exact clash
    | group members => exact clash
  | value name item =>
    cases right with
    | value name' item' => exact clash.2 same
    | self => exact clash
    | input name' => exact clash
    | group members => exact clash
  | group members =>
    cases right with
    | group members' =>
      have sets := same.2
      rw [clash.2.1, clash.2.2] at sets
      exact absurd (congrArg OrderedSet.items sets) (by decide)
    | self => exact clash
    | input name' => exact clash
    | value name' item' => exact clash

/-- Under one owner two nodes share an IRI exactly when they are the same or clash. -/
theorem suffix_same_iff (left right : CatalogNode) :
    left.suffix = right.suffix ↔ left.Same right ∨ left.Clash right ∨ right.Clash left := by
  cases left with
  | self =>
    cases right with
    | self => exact iff_of_true rfl (.inl trivial)
    | input name => exact self_apart _ (by rintro ⟨⟩)
    | value name item => exact self_apart _ (by rintro ⟨⟩)
    | group members => exact self_apart _ (by rintro ⟨⟩)
  | input name =>
    cases right with
    | self => exact apart_self _ (by rintro ⟨⟩)
    | input name' =>
      rw [input_suffix, input_suffix, input_words_same]
      simp only [Same, Clash, or_false]
    | value name' item' =>
      rw [value_suffix, input_suffix, input_words_same]
      simp only [Same, Clash, or_false, false_or]
    | group members =>
      simp only [Same, Clash, or_false, iff_false]
      exact Ne.symm (group_apart name members)
  | value name item =>
    cases right with
    | self => exact apart_self _ (by rintro ⟨⟩)
    | input name' =>
      rw [value_suffix, input_suffix, input_words_same]
      simp only [Same, Clash, false_or]
      exact eq_comm
    | value name' item' =>
      rw [value_suffix, value_suffix, input_words_same]
      simp only [Same, Clash]
      constructor
      · intro same
        by_cases named : name = name' ∧ item = item'
        · exact .inl named
        · exact .inr (.inl ⟨same, named⟩)
      · rintro (⟨rfl, rfl⟩ | ⟨same, _⟩ | ⟨same, _⟩)
        · rfl
        · exact same
        · exact same.symm
    | group members =>
      rw [value_suffix]
      simp only [Same, Clash, or_false, iff_false]
      exact Ne.symm (group_apart _ members)
  | group members =>
    cases right with
    | self => exact apart_self _ (by rintro ⟨⟩)
    | input name' =>
      simp only [Same, Clash, or_false, iff_false]
      exact group_apart name' members
    | value name' item' =>
      rw [value_suffix]
      simp only [Same, Clash, or_false, iff_false]
      exact group_apart _ members
    | group members' => exact group_suffix_iff members members'

/-- The members of a group are written as its segments are. -/
theorem listed_written (group : InputGroup) :
    group.listed.map InputGroup.memberSegment =
      (OrderedSet.ofList (group.members.map InputGroup.memberSegment)).items := by
  have back : ∀ items : List Text,
      (∀ item ∈ items, ∃ name, InputGroup.memberSegment name = item) →
        (items.filterMap decodeSegment).map InputGroup.memberSegment = items := by
    intro items each
    induction items with
    | nil => rfl
    | cons item rest ih =>
      obtain ⟨name, written⟩ := each item List.mem_cons_self
      have read : decodeSegment item = some name := by
        rw [← written, InputGroup.member_segment_encodes]
        exact decode_encode_where _ (by decide) name
      rw [List.filterMap_cons_some read, List.map_cons, written,
        ih fun other inside => each other (List.mem_cons_of_mem item inside)]
  refine back _ fun item member => ?_
  obtain ⟨name, _, written⟩ := List.mem_map.mp ((OrderedSet.mem_of_list _ _).mp member)
  exact ⟨name, written⟩

/-- Rows joined by a comma are written joined by a comma. -/
theorem joined_written (rows : List Spelling) :
    Spelling.written ([Glyph.char ','].intercalate rows) =
      ",".toList.intercalate (rows.map Spelling.written) := by
  have comma : Spelling.written [Glyph.char ','] = ",".toList := by decide
  induction rows with
  | nil => rfl
  | cons row rest ih =>
    cases rest with
    | nil => simp
    | cons next rest =>
      rw [List.intercalate_cons_cons, List.map_cons, List.map_cons, List.intercalate_cons_cons,
        Spelling.written_append, Spelling.written_append, comma, ih]
      rfl

/-- The words for the kinds of groups need no escapes. -/
theorem kind_word_kept (kind : GroupKind) : encodeName kind.word = kind.word := by
  apply encode_name_self
  cases kind <;> rfl

/-- A node is written as its glyphs are. -/
theorem spelling_written (node : CatalogNode) : node.spelling.written = node.suffix := by
  have inputWord : encodeName ":input:".toList = ":input:".toList := encode_name_self _ rfl
  cases node with
  | self => rfl
  | input name =>
    rw [spelling, Spelling.name_written, encode_name_append, inputWord]
    rfl
  | value name item =>
    rw [spelling, Spelling.name_written, value_suffix, List.append_assoc, List.append_assoc,
      encode_name_append, inputWord, List.append_assoc]
  | group members =>
    have groupWord : encodeName ":group:".toList = ":group:".toList := encode_name_self _ rfl
    have colon : encodeName ":".toList = ":".toList := encode_name_self _ rfl
    have segments : (members.listed.map Spelling.member).map Spelling.written =
        (OrderedSet.ofList (members.members.map InputGroup.memberSegment)).items := by
      rw [List.map_map, ← listed_written]
      exact List.map_congr_left fun name _ => Spelling.member_written name
    have cut : ":group:".toList = ":".toList ++ "group:".toList := by decide
    rw [group_suffix, spelling, Spelling.written_append, Spelling.name_written,
      encode_name_append, encode_name_append, groupWord, kind_word_kept, colon, joined_written,
      segments, cut]
    simp only [List.append_assoc]

end CatalogNode

/-- Different numbers have different hexadecimal digits. -/
theorem lower_hex_digit_injective (left right : Nat) (small : left < 16) (small' : right < 16)
    (same : lowerHexDigit left = lowerHexDigit right) : left = right := by
  revert same
  interval_cases left <;> interval_cases right <;> decide

/-- Different bytes are written differently. -/
theorem lower_hex_injective : Function.Injective lowerHex := by
  intro left right same
  have small : left.toNat < 256 := left.toNat_lt
  have small' : right.toNat < 256 := right.toNat_lt
  simp only [lowerHex, List.cons.injEq, and_true] at same
  have high := lower_hex_digit_injective _ _ (by omega) (by omega) same.1
  have low := lower_hex_digit_injective _ _ (by omega) (by omega) same.2
  exact UInt8.toNat_inj.mp (by omega)

namespace ContractDigest

/-- Bytes are written in two characters each. -/
theorem hex_length (bytes : List UInt8) : (bytes.flatMap lowerHex).length = 2 * bytes.length := by
  induction bytes with
  | nil => rfl
  | cons byte bytes ih =>
    rw [List.flatMap_cons, List.length_append, ih, List.length_cons]
    have pair : (lowerHex byte).length = 2 := rfl
    omega

/-- Different runs of bytes are written as different texts. -/
theorem hex_injective : Function.Injective fun bytes : List UInt8 => bytes.flatMap lowerHex := by
  intro left right same
  have width : left.length = right.length := by
    have lengths := congrArg List.length same
    simp only [hex_length] at lengths
    omega
  induction left generalizing right with
  | nil => exact (List.length_eq_zero_iff.mp width.symm).symm
  | cons byte left ih =>
    cases right with
    | nil => cases width
    | cons other right =>
      simp only [List.flatMap_cons] at same
      obtain ⟨first, rest⟩ := List.append_inj same rfl
      rw [lower_hex_injective first, ih rest (Nat.succ.inj width)]

/-- A content address reads back from its text. -/
theorem text_injective : Function.Injective text := by
  rintro ⟨left⟩ ⟨right⟩ same
  have bytes := hex_injective ((List.append_right_inj _).mp same)
  rw [ContractDigest.mk.injEq]
  exact Vector.toList_inj.mp bytes

/-- A digest is sixty-seven characters: its scheme, and two for each byte. -/
theorem text_length (id : ContractDigest) : id.text.length = 67 := by
  have word : "b3:".toList.length = 3 := rfl
  rw [text, List.length_append, hex_length, Vector.length_toList, word]

end ContractDigest

/-- A digest's letters need no escapes, and none of them is a colon. -/
theorem hex_letter (digit : Nat) (small : digit < 16) :
    mustEncode (lowerHexDigit digit) = false ∧ lowerHexDigit digit ≠ ':' := by
  interval_cases digit <;> exact ⟨rfl, by decide⟩

/-- What follows the scheme of a digest: letters that need no escapes and hold no colon. -/
theorem hex_kept (bytes : List UInt8) :
    ((bytes.flatMap lowerHex).all fun c => !mustEncode c) = true ∧
      ':' ∉ bytes.flatMap lowerHex := by
  have byteKept : ∀ byte : UInt8, ∀ c ∈ lowerHex byte, mustEncode c = false ∧ c ≠ ':' := by
    intro byte c member
    have small : byte.toNat < 256 := byte.toNat_lt
    rcases List.mem_cons.mp member with rfl | member
    · exact hex_letter _ (by omega)
    · rw [List.mem_singleton.mp member]
      exact hex_letter _ (by omega)
  constructor
  · rw [List.all_eq_true]
    intro c member
    obtain ⟨byte, _, inside⟩ := List.mem_flatMap.mp member
    rw [(byteKept byte c inside).1]
    rfl
  · intro member
    obtain ⟨byte, _, inside⟩ := List.mem_flatMap.mp member
    exact (byteKept byte ':' inside).2 rfl

/-- What follows the last occurrence of a character is the part without it. -/
theorem after_last {c : Char} {front front' back back' : Text} (absent : c ∉ back)
    (absent' : c ∉ back') (same : front ++ c :: back = front' ++ c :: back') : back = back' := by
  have read : ∀ front back : Text, c ∉ back →
      (front ++ c :: back).reverse.takeWhile (fun other => decide (other ≠ c)) = back.reverse := by
    intro front back absent
    have other : ∀ letter ∈ back.reverse, decide (letter ≠ c) = true := by
      intro letter member
      refine decide_eq_true ?_
      rintro rfl
      exact absent (List.mem_reverse.mp member)
    rw [List.reverse_append, List.reverse_cons, List.append_assoc,
      List.takeWhile_append_of_pos other]
    simp
  have reversed := read front back absent
  rw [same, read front' back' absent'] at reversed
  exact List.reverse_injective reversed.symm

namespace CatalogOwner

variable [ContentHash]

/-- A contract's IRI tells its digest. -/
theorem contract_iri_same (id id' : Text) (spec spec' : ActionSpec)
    (same : (contract id spec).iri = (contract id' spec').iri) :
    spec.contractId id = spec'.contractId id' :=
  ContractDigest.text_injective
    (List.append_inj' same (by rw [ContractDigest.text_length, ContractDigest.text_length])).2

/-- What hangs off an endpoint is written as nothing that hangs off a contract. -/
theorem heads_differ (id id' : Text) (spec : ActionSpec) (rest rest' : Text) :
    (endpoint id).iri ++ rest ≠ (contract id' spec).iri ++ rest' := by
  intro same
  have heads : endpointPrefix.take 12 = contractPrefix.take 12 := by
    have taken := congrArg (List.take 12) same
    simp only [iri, ActionSpec.contractIri, contractIriOf, List.append_assoc] at taken
    rwa [List.take_append_of_le_length (by decide), List.take_append_of_le_length (by decide)]
      at taken
  exact absurd heads (by decide)

/-- A contract's mark needs no escapes. -/
theorem mark_kept (id : Text) (spec : ActionSpec) : encodeName (spec.mark id) = spec.mark id := by
  have digest : ∀ id : ContractDigest, (id.text.all fun c => !mustEncode c) = true := by
    intro id
    rw [ContractDigest.text, List.all_append, (hex_kept _).1]
    rfl
  apply encode_name_self
  rw [ActionSpec.mark, List.all_append, digest]
  cases spec.verb <;> rfl

/-- A contract's IRI is written from the id and the mark behind it. -/
theorem contract_spelled (id : Text) (spec : ActionSpec) :
    (contract id spec).iri = contractPrefix ++ encodeName (id ++ spec.mark id) := by
  rw [encode_name_append, mark_kept]
  simp only [iri, ActionSpec.contractIri, contractIriOf, ActionSpec.mark, List.append_assoc]
  rfl

/-- A mark is a short part that opens with a colon, one more colon, and the 64 letters of the
digest, among which is none. -/
theorem mark_parts (id : Text) (spec : ActionSpec) : ∃ ahead letters,
    spec.mark id = ahead ++ ':' :: letters ∧ letters.length = 64 ∧ ':' ∉ letters ∧
      ahead.length < 64 ∧ ahead.head? = Option.some ':' := by
  refine ⟨":".toList ++ verbSegment spec.verb ++ ":b3".toList,
    (ContentHash.digest (spec.contractBytes id)).toList.flatMap lowerHex, ?_, ?_, (hex_kept _).2,
    ?_, ?_⟩
  · simp only [ActionSpec.mark, ContractDigest.text, List.append_assoc]
    rfl
  · rw [ContractDigest.hex_length, Vector.length_toList]
  · cases spec.verb <;> decide
  · rfl

/-- An id that goes on behind another and its contract's mark is not that other. -/
theorem longer_than_mark {id id' : Text} {spec : ActionSpec} {rest : Text}
    (longer : id' = id ++ spec.mark id ++ rest) : id' ≠ id := by
  intro same
  obtain ⟨ahead, letters, marked, _⟩ := mark_parts id spec
  have widths := congrArg List.length (same.symm.trans longer)
  rw [marked, List.length_append, List.length_append, List.length_append, List.length_cons] at widths
  omega

/-- Where one id and its contract's mark are another's and more, the one id holds the whole of the
other and its mark: a mark ends in the letters of a digest, and holds colons before them. -/
theorem mark_not_cut {id id' : Text} {spec spec' : ActionSpec} {rest : Text} (some : rest ≠ [])
    (whole : id' ++ spec'.mark id' = id ++ spec.mark id ++ rest) :
    ∃ more, id' = id ++ spec.mark id ++ more ∧ rest = more ++ spec'.mark id' := by
  obtain ⟨ahead, letters, marked, width, plain, _, _⟩ := mark_parts id spec
  obtain ⟨ahead', letters', marked', width', plain', short, colon⟩ := mark_parts id' spec'
  rcases List.append_eq_append_iff.mp whole with ⟨more, front, back⟩ | ⟨more, front, back⟩
  · have few : ∀ tail : Text, tail.length < 64 → id ++ spec.mark id = id' ++ tail → ':' ∉ tail := by
      intro tail less ends member
      have final : letters <:+ id ++ spec.mark id :=
        ⟨id ++ ahead ++ [':'], by rw [marked]; simp⟩
      have inside := List.suffix_of_suffix_length_le ⟨id', ends.symm⟩ final (by omega)
      exact plain (inside.subset member)
    have opens : ':' ∈ ahead' := List.mem_of_head? colon
    rw [marked'] at back
    rcases List.append_eq_append_iff.mp back with ⟨further, same, letter⟩ | ⟨further, same, rest⟩
    · cases further with
      | nil =>
        rw [List.append_nil] at same
        exact absurd opens (few ahead' short (same ▸ front))
      | cons first further =>
        obtain ⟨rfl, tail⟩ := List.cons.inj letter
        have absent : ':' ∉ further := fun member => plain' (tail ▸ List.mem_append_left _ member)
        have same : (id ++ ahead) ++ ':' :: letters = (id' ++ ahead') ++ ':' :: further := by
          rw [List.append_assoc, ← marked, front, same, List.append_assoc]
        have counted : letters'.length = letters.length + rest.length := by
          rw [after_last plain absent same, ← List.length_append]
          exact congrArg List.length tail
        rw [width, width'] at counted
        exact absurd (List.length_eq_zero_iff.mp (by omega)) some
    · cases more with
      | nil => exact ⟨[], by simpa using front.symm, by rw [marked']; exact back.symm⟩
      | cons first more =>
        have heads : first = ':' := by
          rw [same] at colon
          exact Option.some.inj colon
        have less : (first :: more).length < 64 := by
          rw [same, List.length_append] at short
          omega
        exact absurd (heads ▸ List.mem_cons_self) (few (first :: more) less front)
  · exact ⟨more, front, back⟩

end CatalogOwner

/-- A value that is described is a node. -/
theorem value_written (spec : ActionSpec) (input : ArgSpec) (member : input ∈ spec.inputs)
    (item : Text) (note : ValueNote) (described : input.note item = some note) :
    .value input.name item ∈
      CatalogNode.hungOff spec.inputs spec.groups spec.arguments spec.outputFrom := by
  obtain ⟨entry, found, _⟩ := Option.map_eq_some_iff.mp described
  have key : entry.1 = item := by simpa using List.find?_some found
  have there := List.mem_of_find?_eq_some found
  refine List.mem_cons_of_mem _ (List.mem_append_left _ (List.mem_append_left _
    (List.mem_append_left _ (List.mem_flatMap.mpr ⟨input, member, ?_⟩))))
  refine List.mem_append_right _ (List.mem_flatMap.mpr ⟨entry, there, ?_⟩)
  rw [key]
  exact List.mem_cons_self

/-- An input's node is among those that hang off its contract. -/
theorem input_written (spec : ActionSpec) (input : ArgSpec) (member : input ∈ spec.inputs) :
    .input input.name ∈
      CatalogNode.hungOff spec.inputs spec.groups spec.arguments spec.outputFrom := by
  refine List.mem_cons_of_mem _ (List.mem_append_left _ (List.mem_append_left _
    (List.mem_append_left _ (List.mem_flatMap.mpr ⟨input, member, ?_⟩))))
  exact List.mem_append_left _ List.mem_cons_self

/-- So is a group's. -/
theorem group_written (spec : ActionSpec) (group : InputGroup) (member : group ∈ spec.groups) :
    .group group ∈
      CatalogNode.hungOff spec.inputs spec.groups spec.arguments spec.outputFrom := by
  refine List.mem_cons_of_mem _ (List.mem_append_left _ (List.mem_append_left _
    (List.mem_append_right _ (List.mem_flatMap.mpr ⟨group, member, ?_⟩))))
  exact List.mem_append_left _ List.mem_cons_self

/-- So is that of the input which carries undeclared arguments, declared or not. -/
theorem carrier_written (spec : ActionSpec) (carrier : Text)
    (envelope : spec.arguments = .envelope carrier) :
    .input carrier ∈
      CatalogNode.hungOff spec.inputs spec.groups spec.arguments spec.outputFrom := by
  rw [envelope]
  exact List.mem_cons_of_mem _ (List.mem_append_left _ (List.mem_append_right _
    List.mem_cons_self))

/-- What is said of one input is said at it, or at a value of it that is described. -/
theorem input_check_path (input : ArgSpec) (effective : ProposedArgs) (repeated : List Text)
    (violation : Violation) (member : violation ∈ input.check effective repeated) :
    violation.path = some (.input input.name) ∨
      ∃ item note, input.note item = some note ∧
        violation.path = some (.value input.name item) := by
  have valued : ∀ item, input.checkValue item = some violation →
      violation.path = some (.input input.name) := by
    intro item found
    unfold ArgSpec.checkValue at found
    split at found
    · cases found
      rfl
    · split at found
      · cases found
      · split at found
        · cases found
        · cases found
          rfl
  have noted : ∀ item, input.checkNote effective item = some violation →
      ∃ item note, input.note item = some note ∧
        violation.path = some (.value input.name item) := by
    intro item found
    unfold ArgSpec.checkNote at found
    split at found
    · cases found
    · rename_i note described
      dsimp only at found
      split at found
      · cases found
      · cases found
        exact ⟨item, note, described, rfl⟩
  unfold ArgSpec.check at member
  rcases List.mem_append.mp member with twice | rest
  · split at twice
    · rw [List.mem_singleton.mp twice]
      exact .inl rfl
    · cases twice
  · split at rest
    · split at rest
      · rw [List.mem_singleton.mp rest]
        exact .inl rfl
      · cases rest
    · rcases List.mem_append.mp rest with checked | lacking
      · rcases List.mem_append.mp checked with values | notes
        · obtain ⟨item, _, found⟩ := List.mem_filterMap.mp values
          exact .inl (valued item found)
        · obtain ⟨item, _, found⟩ := List.mem_filterMap.mp notes
          exact .inr (noted item found)
      · split at lacking
        · rw [List.mem_singleton.mp lacking]
          exact .inl rfl
        · cases lacking

/-- A group's violation is at the group. -/
theorem group_check_path (group : InputGroup) (effective : ProposedArgs) (violation : Violation)
    (found : group.check effective = some violation) :
    violation.path = some (.group group.nodeSegment) := by
  unfold InputGroup.check at found
  dsimp only at found
  cases kind : group.kind <;> simp only [kind, Option.ite_none_right_eq_some] at found <;>
    · obtain ⟨_, ⟨⟩⟩ := found
      rfl

/-- Every violation with a path is at a node that the contract's catalog entry names. -/
theorem violation_named (spec : ActionSpec) (proposed : ProposedArgs) (violation : Violation)
    (member : violation ∈ spec.check proposed) (path : ViolationPath)
    (located : violation.path = some path) :
    ∃ node ∈ CatalogNode.hungOff spec.inputs spec.groups spec.arguments spec.outputFrom,
      path.Names node := by
  unfold ActionSpec.check at member
  dsimp only at member
  rcases List.mem_append.mp member with declared | undeclared
  · rcases List.mem_append.mp declared with named | grouped
    · rcases List.mem_append.mp named with enveloped | given
      · unfold ActionSpec.checkEnvelope at enveloped
        split at enveloped
        · rename_i carrier carried
          split at enveloped
          · rw [List.mem_singleton.mp enveloped] at located
            cases located
            refine ⟨.input carrier, carrier_written spec carrier ?_, rfl⟩
            unfold ActionSpec.carrier at carried
            split at carried
            · rename_i name envelope
              cases carried
              exact envelope
            · cases carried
            · cases carried
          · cases enveloped
        · cases enveloped
      · obtain ⟨input, listed, checked⟩ := List.mem_flatMap.mp given
        have inside := (List.mem_filter.mp listed).1
        rcases input_check_path input _ _ violation checked with here | ⟨item, note, described, here⟩
        · rw [here] at located
          cases located
          exact ⟨.input input.name, input_written spec input inside, rfl⟩
        · rw [here] at located
          cases located
          exact ⟨.value input.name item, value_written spec input inside item note described, rfl⟩
    · obtain ⟨group, inside, found⟩ := List.mem_filterMap.mp grouped
      rw [group_check_path group _ violation found] at located
      cases located
      exact ⟨.group group, group_written spec group inside, group, rfl, rfl⟩
  · obtain ⟨name, _, rfl⟩ := List.mem_map.mp undeclared
    cases located

/-- A path and the catalog spell one node one way. -/
theorem node_iri_named (contract : Text) (path : ViolationPath) (node : CatalogNode)
    (named : path.Names node) : path.nodeIri contract = contract ++ node.suffix := by
  cases path with
  | input name =>
    cases named
    rw [CatalogNode.input_suffix]
    exact List.append_assoc _ _ _
  | group segment =>
    obtain ⟨group, rfl, rfl⟩ := named
    exact List.append_assoc _ _ _
  | value name item =>
    cases named
    have regroup : ∀ a b c d e : Text, a ++ b ++ c ++ d ++ e = a ++ (b ++ c ++ d ++ e) := by
      intro a b c d e
      simp only [List.append_assoc]
    exact regroup _ _ _ _ _

/-- The contracts of a catalog, each with its id. -/
def catalogContracts (catalog : List Description) : List (Text × ActionSpec) :=
  catalog.flatMap fun description => description.actionSpecs.map fun spec => (description.id, spec)

/-- What hangs off an endpoint is a node of one of the catalog's descriptions. -/
theorem endpoint_of_thing (catalog : List Description) (thing : CatalogThing)
    (member : thing ∈ catalogThings catalog) (id : Text) (owned : thing.owner = .endpoint id) :
    ∃ description ∈ catalog, description.id = id ∧ thing.node ∈ description.nodes := by
  obtain ⟨description, inside, written⟩ := List.mem_flatMap.mp member
  rcases List.mem_append.mp written with flat | acted
  · obtain ⟨node, listed, rfl⟩ := List.mem_map.mp flat
    cases owned
    exact ⟨description, inside, rfl, listed⟩
  · obtain ⟨own, _, hung⟩ := List.mem_flatMap.mp acted
    obtain ⟨node, _, rfl⟩ := List.mem_map.mp hung
    cases owned

/-- What hangs off a contract is a node of one of the catalog's contracts. -/
theorem contract_of_thing (catalog : List Description) (thing : CatalogThing)
    (member : thing ∈ catalogThings catalog) (id : Text) (spec : ActionSpec)
    (owned : thing.owner = .contract id spec) :
    (id, spec) ∈ catalogContracts catalog ∧ thing.node ∈ spec.nodes := by
  obtain ⟨description, inside, written⟩ := List.mem_flatMap.mp member
  rcases List.mem_append.mp written with flat | acted
  · obtain ⟨node, _, rfl⟩ := List.mem_map.mp flat
    cases owned
  · obtain ⟨own, listed, hung⟩ := List.mem_flatMap.mp acted
    obtain ⟨node, hangs, rfl⟩ := List.mem_map.mp hung
    cases owned
    exact ⟨List.mem_flatMap.mpr ⟨description, inside, List.mem_map.mpr ⟨spec, listed, rfl⟩⟩, hangs⟩

/-- A description's nodes are things of a catalog that has it. -/
theorem thing_of_endpoint (catalog : List Description) (description : Description)
    (inside : description ∈ catalog) (node : CatalogNode) (listed : node ∈ description.nodes) :
    ⟨.endpoint description.id, node⟩ ∈ catalogThings catalog :=
  List.mem_flatMap.mpr ⟨description, inside,
    List.mem_append_left _ (List.mem_map.mpr ⟨node, listed, rfl⟩)⟩

/-- A contract's nodes are things of a catalog that has it. -/
theorem thing_of_contract (catalog : List Description) (id : Text) (spec : ActionSpec)
    (member : (id, spec) ∈ catalogContracts catalog) (node : CatalogNode)
    (hangs : node ∈ spec.nodes) : ⟨.contract id spec, node⟩ ∈ catalogThings catalog := by
  obtain ⟨description, inside, written⟩ := List.mem_flatMap.mp member
  obtain ⟨own, listed, same⟩ := List.mem_map.mp written
  cases same
  refine List.mem_flatMap.mpr ⟨description, inside, List.mem_append_right _ ?_⟩
  exact List.mem_flatMap.mpr ⟨spec, listed, List.mem_map.mpr ⟨node, hangs, rfl⟩⟩

/-- A node is written as its owner's glyphs and its own are. -/
theorem glyphs_written (name : Text) (node : CatalogNode) :
    Spelling.written (Spelling.name name ++ node.spelling) = encodeName name ++ node.suffix := by
  rw [Spelling.written_append, Spelling.name_written, CatalogNode.spelling_written]

/-- Nodes behind two names are written alike exactly where their glyphs are one row, which one of
the names goes on in. -/
theorem names_cut {name name' : Text} {node node' : CatalogNode}
    (same : encodeName name ++ node.suffix = encodeName name' ++ node'.suffix) :
    (∃ rest, name' = name ++ rest ∧ node.spelling = Spelling.name rest ++ node'.spelling) ∨
      ∃ rest, name = name' ++ rest ∧ node'.spelling = Spelling.name rest ++ node.spelling := by
  rw [← glyphs_written, ← glyphs_written] at same
  rcases List.append_eq_append_iff.mp (Spelling.written_injective same) with
    ⟨row, further, spelled⟩ | ⟨row, further, spelled⟩
  · obtain ⟨front, rest, whole, own, rfl⟩ := Spelling.name_split further
    exact .inl ⟨rest, by rw [whole, Spelling.name_injective own], spelled⟩
  · obtain ⟨front, rest, whole, own, rfl⟩ := Spelling.name_split further
    exact .inr ⟨rest, by rw [whole, Spelling.name_injective own], spelled⟩

/-- Nodes of one spelling have one suffix. -/
theorem suffix_of_spelling {node node' : CatalogNode} (same : node.spelling = node'.spelling) :
    node.suffix = node'.suffix := by
  rw [← node.spelling_written, ← node'.spelling_written, same]

section Apart

variable [ContentHash]

/-- No two contracts of a catalog collide. -/
def CollisionFree (catalog : List Description) : Prop :=
  ∀ left ∈ catalogContracts catalog, ∀ right ∈ catalogContracts catalog,
    ContentHash.digest (left.2.contractBytes left.1) =
        ContentHash.digest (right.2.contractBytes right.1) →
      left.2.contractBytes left.1 = right.2.contractBytes right.1

/-- What is hashed is shorter than 2^64 bytes. -/
def ContractsAddressable (catalog : List Description) : Prop :=
  ∀ contract ∈ catalogContracts catalog, (contract.2.contractBytes contract.1).length < 2 ^ 64

/-- Nodes that share an IRI are one and the same. -/
def NeverMerge (catalog : List Description) : Prop :=
  ∀ left ∈ catalogThings catalog, ∀ right ∈ catalogThings catalog,
    left.iri = right.iri → left.Same right

/-- A violation's path is the IRI of a node of its contract. -/
def ViolationsNamed (catalog : List Description) : Prop :=
  ∀ contract ∈ catalogContracts catalog, ∀ proposed, ∀ violation ∈ contract.2.check proposed,
    ∀ path, violation.path = some path →
      ∃ thing ∈ contract.2.catalogThings contract.1, path.Names thing.node ∧
        path.nodeIri (contract.2.contractIri contract.1) = thing.iri

/-- Names that spell no other node: contracts of one id do not differ in the placing of body
readers and fixed values alone; no nodes of owners that are named alike clash; and where an id
goes on behind another's id, or behind another's id and its contract's mark, no node of the
shorter is spelled by what it goes on with and a node of the longer. -/
structure NamesApart (catalog : List Description) : Prop where
  contents : ∀ left ∈ catalogContracts catalog, ∀ right ∈ catalogContracts catalog,
    left.1 = right.1 → left.2.SameOutline right.2 → left.2.SameContent right.2
  nodes : ∀ left ∈ catalogThings catalog, ∀ right ∈ catalogThings catalog,
    left.owner.Alike right.owner → ¬left.node.Clash right.node
  endpoints : ∀ left ∈ catalog, ∀ right ∈ catalog, ∀ rest ≠ [], right.id = left.id ++ rest →
    ∀ node ∈ left.nodes, ∀ node' ∈ right.nodes,
      node.spelling ≠ Spelling.name rest ++ node'.spelling
  contracts : ∀ left ∈ catalogContracts catalog, ∀ right ∈ catalogContracts catalog, ∀ rest,
    right.1 = left.1 ++ left.2.mark left.1 ++ rest →
      ∀ node ∈ left.2.nodes, ∀ node' ∈ right.2.nodes,
        node.spelling ≠ Spelling.name (rest ++ right.2.mark right.1) ++ node'.spelling

namespace NamesApart

variable {catalog : List Description}

/-- Things whose owners are named alike and that share a suffix are the same node. -/
theorem same_node (apart : NamesApart catalog) {left right : CatalogThing}
    (member : left ∈ catalogThings catalog) (member' : right ∈ catalogThings catalog)
    (alike : left.owner.Alike right.owner) (alike' : right.owner.Alike left.owner)
    (suffixes : left.node.suffix = right.node.suffix) : left.node.Same right.node := by
  rcases (CatalogNode.suffix_same_iff _ _).mp suffixes with nodes | clash | clash
  · exact nodes
  · exact absurd clash (apart.nodes left member right member' alike)
  · exact absurd clash (apart.nodes right member' left member alike')

/-- Nodes that hang off endpoints and share an IRI are the same. -/
theorem same_endpoints (apart : NamesApart catalog) {id id' : Text} {node node' : CatalogNode}
    (member : ⟨.endpoint id, node⟩ ∈ catalogThings catalog)
    (member' : ⟨.endpoint id', node'⟩ ∈ catalogThings catalog)
    (same : encodeName id ++ node.suffix = encodeName id' ++ node'.suffix) :
    id = id' ∧ node.Same node' := by
  have ends : ∀ {id id' : Text} {node node' : CatalogNode},
      ⟨.endpoint id, node⟩ ∈ catalogThings catalog →
      ⟨.endpoint id', node'⟩ ∈ catalogThings catalog → ∀ rest, id' = id ++ rest →
        node.spelling = Spelling.name rest ++ node'.spelling →
          rest = [] ∧ node.suffix = node'.suffix := by
    intro id id' node node' member member' rest further spelled
    obtain ⟨left, inside, rfl, listed⟩ := endpoint_of_thing catalog _ member _ rfl
    obtain ⟨right, inside', rfl, listed'⟩ := endpoint_of_thing catalog _ member' _ rfl
    have nothing : rest = [] := by
      by_contra some
      exact apart.endpoints left inside right inside' rest some further _ listed _ listed' spelled
    subst nothing
    exact ⟨rfl, suffix_of_spelling spelled⟩
  rcases names_cut same with ⟨rest, further, spelled⟩ | ⟨rest, further, spelled⟩
  · obtain ⟨rfl, suffixes⟩ := ends member member' rest further spelled
    rw [List.append_nil] at further
    exact ⟨further.symm, apart.same_node member member' further.symm further suffixes⟩
  · obtain ⟨rfl, suffixes⟩ := ends member' member rest further spelled
    rw [List.append_nil] at further
    exact ⟨further, apart.same_node member member' further further.symm suffixes.symm⟩

/-- Nodes that hang off contracts and share an IRI are the same. -/
theorem same_contracts (apart : NamesApart catalog) (free : CollisionFree catalog)
    (short : ContractsAddressable catalog) {id id' : Text} {spec spec' : ActionSpec}
    {node node' : CatalogNode} (member : ⟨.contract id spec, node⟩ ∈ catalogThings catalog)
    (member' : ⟨.contract id' spec', node'⟩ ∈ catalogThings catalog)
    (same : encodeName (id ++ spec.mark id) ++ node.suffix =
      encodeName (id' ++ spec'.mark id') ++ node'.suffix) :
    (id = id' ∧ spec.SameContent spec') ∧ node.Same node' := by
  have ends : ∀ {id id' : Text} {spec spec' : ActionSpec} {node node' : CatalogNode},
      ⟨.contract id spec, node⟩ ∈ catalogThings catalog →
      ⟨.contract id' spec', node'⟩ ∈ catalogThings catalog → ∀ rest,
        id' ++ spec'.mark id' = id ++ spec.mark id ++ rest →
          node.spelling = Spelling.name rest ++ node'.spelling →
            rest = [] ∧ node.suffix = node'.suffix := by
    intro id id' spec spec' node node' member member' rest further spelled
    obtain ⟨listed, hangs⟩ := contract_of_thing catalog _ member _ _ rfl
    obtain ⟨listed', hangs'⟩ := contract_of_thing catalog _ member' _ _ rfl
    have nothing : rest = [] := by
      by_contra some
      obtain ⟨more, longer, rfl⟩ := CatalogOwner.mark_not_cut some further
      exact apart.contracts _ listed _ listed' more longer _ hangs _ hangs' spelled
    subst nothing
    exact ⟨rfl, suffix_of_spelling spelled⟩
  have owners : id ++ spec.mark id = id' ++ spec'.mark id' ∧ node.suffix = node'.suffix := by
    rcases names_cut same with ⟨rest, further, spelled⟩ | ⟨rest, further, spelled⟩
    · obtain ⟨rfl, suffixes⟩ := ends member member' rest further spelled
      exact ⟨by simpa using further.symm, suffixes⟩
    · obtain ⟨rfl, suffixes⟩ := ends member' member rest further spelled
      exact ⟨by simpa using further, suffixes.symm⟩
  obtain ⟨listed, _⟩ := contract_of_thing catalog _ member _ _ rfl
  obtain ⟨listed', _⟩ := contract_of_thing catalog _ member' _ _ rfl
  have digests := CatalogOwner.contract_iri_same id id' spec spec' (by
    rw [CatalogOwner.contract_spelled, CatalogOwner.contract_spelled, owners.1])
  have bytes := free _ listed _ listed' (ContractDigest.mk.inj digests)
  obtain ⟨ids, outline⟩ := ActionSpec.contract_bytes_same spec spec' id id' (short _ listed) bytes
  exact ⟨⟨ids, apart.contents _ listed _ listed' ids outline⟩,
    apart.same_node member member' bytes bytes.symm owners.2⟩

/-- Where names spell no other node, nodes never merge. -/
theorem never_merge (apart : NamesApart catalog) (free : CollisionFree catalog)
    (short : ContractsAddressable catalog) : NeverMerge catalog := by
  rintro ⟨owner, node⟩ member ⟨owner', node'⟩ member' same
  have split : ∀ (owner : CatalogOwner) (node : CatalogNode),
      CatalogThing.iri ⟨owner, node⟩ = owner.iri ++ node.suffix := fun _ _ => rfl
  rw [split, split] at same
  cases owner with
  | endpoint id =>
    cases owner' with
    | endpoint id' =>
      simp only [CatalogOwner.iri, List.append_assoc, List.append_cancel_left_eq] at same
      exact apart.same_endpoints member member' same
    | contract id' spec' => exact absurd same (CatalogOwner.heads_differ id id' spec' _ _)
  | contract id spec =>
    cases owner' with
    | endpoint id' => exact absurd same.symm (CatalogOwner.heads_differ id' id spec _ _)
    | contract id' spec' =>
      rw [CatalogOwner.contract_spelled, CatalogOwner.contract_spelled, List.append_assoc,
        List.append_assoc, List.append_cancel_left_eq] at same
      exact apart.same_contracts free short member member' same

end NamesApart

/-- Where nodes never merge, names spell no other node. -/
theorem apart_of_never_merge (catalog : List Description) (short : ContractsAddressable catalog)
    (unmerged : NeverMerge catalog) : NamesApart catalog where
  contents := by
    rintro ⟨id, left⟩ member ⟨id', right⟩ member' ids outline
    cases ids
    by_contra differ
    have bytes := ActionSpec.contract_bytes_of_outline left right id (short _ member) outline differ
    have merged := unmerged _ (thing_of_contract catalog id left member .self List.mem_cons_self)
      _ (thing_of_contract catalog id right member' .self List.mem_cons_self) (by
        have verbs : left.verb = right.verb := outline.alike.verb
        simp only [CatalogThing.iri, CatalogOwner.iri, ActionSpec.contractIri,
          ActionSpec.contractId, bytes, verbs])
    exact differ merged.1.2
  nodes := by
    intro left member right member' alike clash
    have owners : left.owner.iri = right.owner.iri := by
      cases owned : left.owner with
      | endpoint id =>
        cases owned' : right.owner with
        | endpoint id' =>
          rw [owned, owned'] at alike
          exact congrArg (fun id => (CatalogOwner.endpoint id).iri) alike
        | contract id' spec' =>
          rw [owned, owned'] at alike
          exact alike.elim
      | contract id spec =>
        cases owned' : right.owner with
        | endpoint id' =>
          rw [owned, owned'] at alike
          exact alike.elim
        | contract id' spec' =>
          rw [owned, owned'] at alike
          obtain ⟨listed, _⟩ := contract_of_thing catalog left member id spec owned
          obtain ⟨rfl, outline⟩ :=
            ActionSpec.contract_bytes_same spec spec' id id' (short _ listed) alike
          have verbs : spec.verb = spec'.verb := outline.alike.verb
          have bytes : spec.contractBytes id = spec'.contractBytes id := alike
          simp only [CatalogOwner.iri, ActionSpec.contractIri, ActionSpec.contractId, bytes, verbs]
    have spelled := (CatalogNode.suffix_same_iff _ _).mpr (.inr (.inl clash))
    have merged := unmerged left member right member' (by
      rw [CatalogThing.iri, CatalogThing.iri, owners, spelled])
    exact CatalogNode.not_same_of_clash _ _ clash merged.2
  endpoints := by
    intro left inside right inside' rest some further node listed node' listed' spelled
    have merged := unmerged _ (thing_of_endpoint catalog left inside node listed)
      _ (thing_of_endpoint catalog right inside' node' listed') (by
        have written := congrArg Spelling.written spelled
        rw [glyphs_written, CatalogNode.spelling_written] at written
        simp only [CatalogThing.iri, CatalogOwner.iri, further, encode_name_append, written,
          List.append_assoc])
    have widths := congrArg List.length (further.symm.trans merged.1.symm)
    rw [List.length_append] at widths
    exact some (List.length_eq_zero_iff.mp (by omega))
  contracts := by
    rintro ⟨id, spec⟩ listed ⟨id', spec'⟩ listed' rest longer node hangs node' hangs' spelled
    have further : id' = id ++ spec.mark id ++ rest := longer
    have merged := unmerged _ (thing_of_contract catalog id spec listed node hangs)
      _ (thing_of_contract catalog id' spec' listed' node' hangs') (by
        have written := congrArg Spelling.written spelled
        rw [glyphs_written, CatalogNode.spelling_written] at written
        have split : ∀ (owner : CatalogOwner) (node : CatalogNode),
            CatalogThing.iri ⟨owner, node⟩ = owner.iri ++ node.suffix := fun _ _ => rfl
        rw [split, split, CatalogOwner.contract_spelled, CatalogOwner.contract_spelled, written]
        rw [encode_name_append id', further]
        simp only [encode_name_append, List.append_assoc])
    exact CatalogOwner.longer_than_mark further merged.1.1.symm

/-- Every violation names a node of the contract it is of. -/
theorem violations_named (catalog : List Description) : ViolationsNamed catalog := by
  rintro ⟨id, spec⟩ _ proposed violation member path located
  obtain ⟨node, written, named⟩ := violation_named spec proposed violation member path located
  exact ⟨⟨.contract id spec, node⟩, List.mem_map.mpr ⟨node, written, rfl⟩, named,
    node_iri_named _ path node named⟩

/-- The nodes of a catalog share an IRI only where they are one and the same, and a violation
names the node it is about, exactly when no name of the catalog spells another node. -/
theorem catalog_nodes_never_merge (catalog : List Description) (free : CollisionFree catalog)
    (short : ContractsAddressable catalog) :
    (NeverMerge catalog ∧ ViolationsNamed catalog) ↔ NamesApart catalog :=
  ⟨fun holds => apart_of_never_merge catalog short holds.1, fun apart =>
    ⟨apart.never_merge free short, violations_named catalog⟩⟩

end Apart

namespace SpelledNodeExample

local instance zeroHash : ContentHash := ⟨fun _ => Vector.replicate 32 0⟩

def mode : ArgSpec := { name := "mode".toList, values := [("add".toList, {})] }

def spelled : ArgSpec := { name := "mode:value:add".toList }

def calendar : Description :=
  { id := "cal".toList, verbs := [.source], inputs := [mode, spelled] }

/-- The value of one input and another input share a node. -/
theorem spelled_nodes_merge :
    ¬(NeverMerge [calendar] ∧ ViolationsNamed [calendar]) := by
  rintro ⟨unmerged, -⟩
  have hung : ∀ node ∈ CatalogNode.hungOff calendar.inputs calendar.groups calendar.arguments
      calendar.outputFrom, ⟨.endpoint calendar.id, node⟩ ∈ catalogThings [calendar] := by
    intro node written
    exact List.mem_flatMap.mpr ⟨calendar, List.mem_singleton_self _,
      List.mem_append_left _ (List.mem_map.mpr ⟨node, written, rfl⟩)⟩
  have value := hung _ (value_written (calendar.flatAction .source) mode List.mem_cons_self
    "add".toList {} rfl)
  have input := hung _ (input_written (calendar.flatAction .source) spelled
    (List.mem_cons_of_mem _ List.mem_cons_self))
  exact (unmerged _ value _ input (by decide)).2

def upper : Description :=
  { id := "fn:upper".toList, verbs := [.source], inputs := [{ name := "in".toList }] }

/-- The example's names, of one contract with several inputs, are apart. -/
theorem upper_names_apart : NamesApart [upper] where
  contents := by
    intro left member right member' _ _
    rw [List.mem_singleton.mp member, List.mem_singleton.mp member']
    exact ⟨rfl, rfl, fun _ => Iff.rfl, rfl, rfl, fun _ => Iff.rfl, rfl, rfl, rfl, rfl⟩
  nodes := by
    intro left member right member' _ clash
    have plain : ∀ thing ∈ catalogThings [upper],
        thing.node = .self ∨ thing.node = .input "in".toList := by
      intro thing inside
      have listed : catalogThings [upper] =
          [⟨.endpoint upper.id, .self⟩, ⟨.endpoint upper.id, .input "in".toList⟩,
            ⟨.contract upper.id (upper.flatAction .source), .self⟩,
            ⟨.contract upper.id (upper.flatAction .source), .input "in".toList⟩] := rfl
      rw [listed] at inside
      simp only [List.mem_cons, List.not_mem_nil, or_false] at inside
      rcases inside with rfl | rfl | rfl | rfl
      · exact .inl rfl
      · exact .inr rfl
      · exact .inl rfl
      · exact .inr rfl
    rcases plain left member with here | here <;> rcases plain right member' with there | there <;>
      rw [here, there] at clash <;> exact clash
  endpoints := by
    intro left member right member' rest some further
    rw [List.mem_singleton.mp member, List.mem_singleton.mp member'] at further
    have widths := congrArg List.length further
    rw [List.length_append] at widths
    exact absurd (List.length_eq_zero_iff.mp (by omega)) some
  contracts := by
    intro left member right member' rest further
    rw [List.mem_singleton.mp member, List.mem_singleton.mp member'] at further
    exact absurd rfl (CatalogOwner.longer_than_mark further)

/-- The example's nodes never merge, and its violations name them. -/
theorem upper_nodes_never_merge : NeverMerge [upper] ∧ ViolationsNamed [upper] :=
  (catalog_nodes_never_merge [upper]
    (by
      intro left member right member' _
      rw [List.mem_singleton.mp member, List.mem_singleton.mp member'])
    (by
      intro contract member
      rw [List.mem_singleton.mp member]
      with_unfolding_all decide)).mpr upper_names_apart

end SpelledNodeExample

end Ikigai
