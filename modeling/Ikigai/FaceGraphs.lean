import Ikigai.CatalogGraph
import Ikigai.TemplatePieces

/-!
# The graphs of the other faces

The matches of a query and the report of a proposed call, as triples. A template's pattern
is offered only where a name it expands to is an IRI, so it holds nothing that a literal
must escape.
-/

namespace Ikigai

open Turtle (Term Triple Property Names Spells Describes AllDescribe States triplesOf)

namespace UriTemplate

/-- A character of a pattern spells a variable, or a name the pattern expands to holds it. -/
theorem spelled_or_expanded (bindings : List (Text × Text)) (parts : List Part)
    (named : ∀ part ∈ parts, Named part) (name : Text)
    (expands : expandParts bindings parts = some name) (c : Char)
    (member : c ∈ parts.flatMap Part.spell) :
    c ∈ name ∨ c = '{' ∨ c = '}' ∨ (c.isAlphanum || c == '_') = true := by
  induction parts generalizing name with
  | nil => cases member
  | cons part parts ih =>
    rw [expand_parts_cons] at expands
    obtain ⟨first, own, further⟩ := Option.bind_eq_some_iff.mp expands
    obtain ⟨second, rest, rfl⟩ := Option.map_eq_some_iff.mp further
    rw [List.flatMap_cons] at member
    rcases List.mem_append.mp member with here | later
    · cases part with
      | lit text =>
        cases own
        exact .inl (List.mem_append_left _ here)
      | var variable_ =>
        have valid : validName variable_ = true := named _ List.mem_cons_self
        rw [validName, Bool.and_eq_true, List.all_eq_true] at valid
        rcases List.mem_cons.mp here with rfl | inside
        · exact .inr (.inl rfl)
        · rcases List.mem_append.mp inside with letter | close
          · exact .inr (.inr (.inr (valid.2 c letter)))
          · exact .inr (.inr (.inl (List.mem_singleton.mp close)))
    · rcases ih (fun other inside => named other (List.mem_cons_of_mem _ inside)) second rest later
        with held | spelled
      · exact .inl (List.mem_append_right _ held)
      · exact .inr spelled

end UriTemplate

section Patterns

variable [IriSyntax] (rfc : ∀ text, IriSyntax.isIri text = Rfc3987.isIri text)

include rfc

/-- What a literal must escape is in no pattern that an entry is described by. -/
theorem pattern_plain (probe : Iri → Option Probed) (entry : SpaceEntry)
    (described : EntryDescription) (found : describeEntry probe entry = some described) :
    ∀ c ∈ entry.pattern, c ∉ ['"', '\\', '\n', '\r'] := by
  have plain : ∀ name : Text, IriSyntax.isIri name = true →
      ∀ c ∈ name, c ∉ ['"', '\\', '\n', '\r'] := by
    intro name valid c member escaped
    have allowed := Rfc3987.plain_iri name (rfc name ▸ valid) c member
    simp only [List.mem_cons, List.not_mem_nil, or_false] at escaped
    rcases escaped with rfl | rfl | rfl | rfl <;> cases allowed
  rcases described_pattern probe entry described found with valid | ⟨template, name, parsed, probed⟩
  · exact plain _ valid
  · obtain ⟨read, _, source⟩ := (UriTemplate.parse_eq_ok_iff _ template).mp parsed
    obtain ⟨text, expands, reads⟩ := Option.bind_eq_some_iff.mp probed
    have valid : IriSyntax.isIri text = true := by
      rw [Iri.parse] at reads
      by_contra other
      rw [if_neg other] at reads
      cases reads
    intro c member
    rw [← source, ← template.spelled] at member
    rcases UriTemplate.spelled_or_expanded _ _ (UriTemplate.scan_named _ _ _ read) text expands c
      member with held | rfl | rfl | letter
    · exact plain text valid c held
    · decide
    · decide
    · intro escaped
      simp only [List.mem_cons, List.not_mem_nil, or_false] at escaped
      rcases escaped with rfl | rfl | rfl | rfl <;> cases letter

end Patterns

/-- How a match names its door. -/
def doorMeans (found : ActionMatch) : Property :=
  if Rfc3987.isIri found.endpoint then ikMeans "endpoint" (.iri found.endpoint)
  else ikMeans "template" (.string found.endpoint)

/-- What a match's node says. -/
def matchMeans (found : ActionMatch) : List Property :=
  [typeMeans (ikTerm "ActionMatch"), doorMeans found, ikMeans "contract" (.iri found.action),
    ikMeans "verb" (.string (verbName found.verb))] ++
  (found.requires.map fun scope => ikMeans "requires" (scopeMeant scope)) ++
  if 0 < found.missingOptional then
    [ikMeans "missingOptional"
      (.literal (Nat.toDigits 10 found.missingOptional) Turtle.xsdInteger)]
  else []

/-- The graph of some matches. -/
def matchGraph (found : List ActionMatch) : List Triple :=
  found.flatMap fun found => triplesOf (.iri found.matchIri) (matchMeans found)

section Matches

variable {names : Names}

/-- A text without what a literal must escape stands for itself. -/
theorem plain_escapes (text : Text) (plain : ∀ c ∈ text, c ∉ ['"', '\\', '\n', '\r']) :
    Turtle.Escapes text text := by
  induction text with
  | nil => exact .nil
  | cons c text ih =>
    have first := Turtle.Escapes.plain c (plain c List.mem_cons_self)
    exact first.append (ih fun other member => plain other (List.mem_cons_of_mem _ member))

/-- A number's digits spell an integer. -/
theorem digits_spell (n : Nat) :
    Spells names (Nat.toDigits 10 n) (.literal (Nat.toDigits 10 n) Turtle.xsdInteger) := by
  have digits : ∀ c ∈ Nat.toDigits 10 n, c.isDigit = true := fun c member =>
    Nat.isDigit_of_mem_toDigits (by decide) (by decide) member
  have isLocal : ∀ c : Char, c.isDigit = true → Turtle.isLocal c = true := by
    intro c digit
    simp [Turtle.isLocal, Char.isAlphanum, digit]
  cases spelled : Nat.toDigits 10 n with
  | nil => exact absurd spelled Nat.toDigits_ne_nil
  | cons c rest =>
    rw [spelled] at digits
    have all : (c :: rest).all Char.isDigit = true := List.all_eq_true.mpr digits
    have apart : ∀ other : Char, other.isDigit = false → c ≠ other := by
      rintro other symbol rfl
      rw [digits c List.mem_cons_self] at symbol
      cases symbol
    have opens : Turtle.opensWord c = true := by
      simp [Turtle.opensWord, Turtle.isSpace, Turtle.isMark, apart ' ' (by decide),
        apart '\t' (by decide), apart '\n' (by decide), apart '\r' (by decide),
        apart ';' (by decide), apart ',' (by decide), apart '.' (by decide), apart '[' (by decide),
        apart ']' (by decide), apart '<' (by decide), apart '"' (by decide)]
    refine Turtle.spells_word c rest _ opens (List.all_eq_true.mpr fun other member =>
      Turtle.local_word other (isLocal other (digits other (List.mem_cons_of_mem _ member)))) ?_
    intro parser _
    have letters : ∀ first word, first.isDigit = false → c :: rest ≠ first :: word :=
      fun first word symbol same => apart first symbol (List.cons.inj same).1
    have yes := letters 't' ['r', 'u', 'e'] (by decide)
    have no := letters 'f' ['a', 'l', 's', 'e'] (by decide)
    change (if c :: rest = ['t', 'r', 'u', 'e'] then _ else if c :: rest = ['f', 'a', 'l', 's', 'e']
      then _ else if !(c :: rest).isEmpty && (c :: rest).all Char.isDigit then _ else _) = _
    rw [if_neg yes, if_neg no, all]
    rfl

variable [IriSyntax] (rfc : ∀ text, IriSyntax.isIri text = Rfc3987.isIri text)

include rfc

/-- A match names its door in quotes, which an id without quotes, backslashes or breaks may stand
in. -/
theorem door_describes (found : ActionMatch)
    (plain : ∀ c ∈ found.endpoint, c ∉ ['"', '\\', '\n', '\r']) :
    AllDescribe ikNames [matchNamed found] [doorMeans found] := by
  unfold matchNamed doorMeans Iri.parse
  rw [rfc]
  by_cases valid : Rfc3987.isIri found.endpoint = true
  · rw [if_pos valid, if_pos valid]
    exact ik_property "endpoint" (by decide) (bracketed_spells _ valid)
  · rw [if_neg valid, if_neg valid]
    -- a pattern holds nothing that is escaped, so both replacements keep it
    have slash := InputGroup.replace_absent found.endpoint '\\' "\\\\".toList fun member =>
      plain _ member (by decide)
    have quote := InputGroup.replace_absent found.endpoint '"' "\\\"".toList fun member =>
      plain _ member (by decide)
    rw [slash, quote]
    exact ik_property "template" (by decide) (Turtle.spells_string (plain_escapes _ plain))

/-- A match describes its verb, its contract, its door and the arguments it takes. -/
theorem match_describes (found : ActionMatch) (minted : Minted found.action)
    (plain : ∀ c ∈ found.endpoint, c ∉ ['"', '\\', '\n', '\r']) :
    AllDescribe ikNames (matchPredicates found) (matchMeans found) := by
  have type := type_property (ik_word_spells "ActionMatch" (by decide)).lists
  have contract := ik_property "contract" (by decide) minted.spells
  have letters : ∀ verb, ∀ c ∈ verbName verb, c ∉ ['"', '\\', '\n', '\r'] := by
    intro verb c member escaped
    have alpha : (verbName verb).all Char.isAlpha = true := by cases verb <;> decide
    have letter := List.all_eq_true.mp alpha c member
    simp only [List.mem_cons, List.not_mem_nil, or_false] at escaped
    rcases escaped with rfl | rfl | rfl | rfl <;> cases letter
  have verb := ik_property "verb" (by decide)
    (Turtle.spells_string (plain_escapes _ (letters found.verb)))
  have scopes := ik_each "requires" (by decide) fun scope (_ : scope ∈ found.requires) =>
    scope_term_spells rfc scope
  have number := describe_if (decide (0 < found.missingOptional))
    (ik_property "missingOptional" (by decide) (digits_spell found.missingOptional)) .nil
  simp only [decide_eq_true_eq] at number
  exact ((type.append ((door_describes rfc found plain).append
    (contract.append verb))).append scopes).append number

variable [ContentHash]

/-- The matches of a query are read back as their graph. -/
theorem actions_turtle_read (entries : List SpaceEntry) (probe : Iri → Option Probed)
    (query : ActionQuery) :
    Turtle.read (actionsTurtle (selectActionsBounded entries probe query).1) =
      some (matchGraph (selectActionsBounded entries probe query).1) := by
  have each : ∀ found ∈ (selectActionsBounded entries probe query).1,
      States ikNames ("\n".toList ++ nodeStatement found.matchIri (matchPredicates found) ++
        "\n".toList) (triplesOf (.iri found.matchIri) (matchMeans found)) := by
    intro found member
    obtain ⟨entry, described, action, offered⟩ := offered_of_selected entries probe query found member
    have contract : Minted found.action := by
      rw [offered.found]
      exact contract_minted action described.description.id
    have plain : ∀ c ∈ found.endpoint, c ∉ ['"', '\\', '\n', '\r'] := by
      rw [offered.found]
      exact pattern_plain rfc probe entry described offered.describes
    have own := node_states (match_iri_minted found.verb found.endpoint)
      (match_describes rfc found contract plain) (List.cons_ne_nil _ _)
    have whole := (Vocab.line_states.append own).append Vocab.line_states
    rwa [List.nil_append, List.append_nil] at whole
  have whole := Vocab.line_states.append (Turtle.states_flat_map _ _ _ each)
  rw [List.nil_append] at whole
  exact Turtle.read_states ik_declares whole

end Matches

namespace Report

/-- What a property of a report says. -/
def shMeans (word : String) (term : Term) : Property := (shaclNamespace ++ word.toList, term)

def shTerm (word : String) : Term := .iri (shaclNamespace ++ word.toList)

/-- What a result's node says. -/
def resultMeans (actionIri : Text) (entry : Entry) : List Property :=
  [typeMeans (shTerm "ValidationResult"), shMeans "resultSeverity" (shTerm "Violation"),
    shMeans "focusNode" (.iri actionIri)] ++
  (entry.path.toList.map fun path => shMeans "resultPath" (.iri path)) ++
  (entry.component.toList.map fun component =>
    shMeans "sourceConstraintComponent" (.iri component)) ++
  [shMeans "resultMessage" (.string entry.message)]

/-- The graph of a report: a result is a blank node. -/
def graph [IriSyntax] (actionIri : Text) (spec : ActionSpec) (proposed : Text)
    (capability : Capability) : List Triple :=
  triplesOf (.iri reportIri) [typeMeans (shTerm "ValidationReport"),
      shMeans "conforms" (.boolean (entries actionIri spec proposed capability).isEmpty)] ++
    Turtle.nestedTriples (.iri reportIri) (shaclNamespace ++ "result".toList) 0
      ((entries actionIri spec proposed capability).map (resultMeans actionIri))

section Rules

theorem sh_head (word : Text) : "sh:".toList ++ word = "sh".toList ++ ':' :: word := by
  have whole : "sh:".toList = "sh".toList ++ [':'] := by decide
  rw [whole, List.append_assoc]
  rfl

/-- A property of the shapes vocabulary describes as its word means. -/
theorem sh_property (word : String) {text : Text} {term : Term}
    (spelled : word.toList.all Turtle.isLocal = true) (spells : Spells shNames text term) :
    AllDescribe shNames [shProperty word text] [shMeans word term] := by
  rw [shProperty, sh_head]
  exact .property (sh_declares.predicates _ spelled) spells

/-- So does one for each item. -/
theorem sh_each {α : Type} (word : String) {write : α → Text} {term : α → Term} {items : List α}
    (spelled : word.toList.all Turtle.isLocal = true)
    (each : ∀ item ∈ items, Spells shNames (write item) (term item)) :
    AllDescribe shNames (items.map fun item => shProperty word (write item))
      (items.map fun item => shMeans word (term item)) := by
  simp only [shProperty, sh_head]
  exact .properties (sh_declares.predicates _ spelled) each

/-- A word of that vocabulary spells its term. -/
theorem sh_word_spells (word : String) (spelled : word.toList.all Turtle.isLocal = true) :
    Spells shNames (shWord word) (shTerm word) := by
  rw [shWord, sh_head]
  exact sh_declares.spells _ spelled

/-- What is minted is written as it is. -/
theorem escape_minted {text : Text} (minted : Minted text) : escapeIriFragment text = text := by
  have plain := Rfc3987.plain_iri text minted.valid
  rw [escapeIriFragment, encodeWhere]
  generalize text = text at plain
  induction text with
  | nil => rfl
  | cons c text ih =>
    have allowed : isIriForbidden c = false := plain c List.mem_cons_self
    rw [List.flatMap_cons, allowed, ih fun other member => plain other (List.mem_cons_of_mem _ member)]
    rfl

/-- The node a violation points at is an IRI, as the contract's is. -/
theorem node_iri_minted (contract : Text) (minted : Minted contract) (path : ViolationPath)
    (node : CatalogNode) (named : path.Names node) : Minted (path.nodeIri contract) := by
  cases path with
  | input name => exact input_node_minted minted name
  | group segment =>
    obtain ⟨group, rfl, rfl⟩ := named
    exact group_minted minted group
  | value name item => exact value_node_minted minted name item

/-- Every kind of violation is a local name in the shapes vocabulary. -/
theorem component_word (kind : ViolationKind) :
    ∃ word, kind.component = shaclNamespace ++ word ∧ word.all Turtle.isLocal = true := by
  cases kind with
  | missing => exact ⟨"MinCountConstraintComponent".toList, by decide, by decide⟩
  | notOneOf => exact ⟨"InConstraintComponent".toList, by decide, by decide⟩
  | implausibleValue => exact ⟨"DatatypeConstraintComponent".toList, by decide, by decide⟩
  | unknown => exact ⟨"ClosedConstraintComponent".toList, by decide, by decide⟩
  | exactlyOne => exact ⟨"XoneConstraintComponent".toList, by decide, by decide⟩
  | atLeastOne => exact ⟨"OrConstraintComponent".toList, by decide, by decide⟩
  | atMostOne => exact ⟨"SPARQLConstraintComponent".toList, by decide, by decide⟩
  | needs => exact ⟨"OrConstraintComponent".toList, by decide, by decide⟩
  | givenTwice => exact ⟨"MaxCountConstraintComponent".toList, by decide, by decide⟩
  | envelope => exact ⟨"XoneConstraintComponent".toList, by decide, by decide⟩

end Rules

/-- An entry whose node is minted and whose rule is an IRI. -/
structure Entry.Sound (entry : Entry) : Prop where
  path : ∀ path ∈ entry.path.toList, Minted path
  component : ∀ component ∈ entry.component.toList, Rfc3987.isIri component = true

/-- What is entered in a report of a minted contract may stand in it. -/
theorem entries_sound [IriSyntax] (contract : Text) (minted : Minted contract) (spec : ActionSpec)
    (proposed : Text) (capability : Capability) :
    ∀ entry ∈ entries contract spec proposed capability, entry.Sound := by
  intro entry member
  rcases List.mem_append.mp member with lacking | broken
  · obtain ⟨scope, _, rfl⟩ := List.mem_map.mp lacking
    exact ⟨nofun, nofun⟩
  · obtain ⟨violation, found, rfl⟩ := List.mem_map.mp broken
    refine ⟨fun text inside => ?_, fun text inside => ?_⟩
    · obtain ⟨path, located, rfl⟩ := Option.map_eq_some_iff.mp (Option.mem_toList.mp inside)
      obtain ⟨node, _, named⟩ := violation_named spec _ violation found path located
      exact node_iri_minted contract minted path node named
    · obtain ⟨word, whole, spelled⟩ := component_word violation.kind
      rw [List.mem_singleton.mp inside, whole]
      exact sh_declares.words word spelled

/-- A result describes its severity, its node, its value and its message. -/
theorem result_describes (contract : Text) (minted : Minted contract) (entry : Entry)
    (sound : entry.Sound) :
    Describes shNames (resultSeparator.intercalate (resultPredicates contract entry))
      (resultMeans contract entry) := by
  have type := type_property (sh_word_spells "ValidationResult" (by decide)).lists
  have severity := sh_property "resultSeverity" (by decide) (sh_word_spells "Violation" (by decide))
  have focus := sh_property "focusNode" (by decide) minted.spells
  have path := sh_each "resultPath" (by decide) fun path inside => (sound.path path inside).spells
  have component := sh_each "sourceConstraintComponent" (by decide)
    fun component inside => bracketed_spells component (sound.component component inside)
  have message := sh_property "resultMessage" (by decide) (quotes_spells entry.message)
  have paths : (entry.path.toList.map fun path =>
      shProperty "resultPath" (bracketed (escapeIriFragment path))) =
        entry.path.toList.map fun path => shProperty "resultPath" (bracketed path) :=
    List.map_congr_left fun path inside => by rw [escape_minted (sound.path path inside)]
  have all : AllDescribe shNames (resultPredicates contract entry) (resultMeans contract entry) := by
    rw [resultPredicates, escape_minted minted, paths]
    exact (((type.append (severity.append focus)).append path).append component).append message
  have separates : Turtle.Separates resultSeparator := by
    have whole : resultSeparator = ' ' :: ';' :: "\n        ".toList := by decide
    rw [whole]
    exact Turtle.semicolon_separates _ (by decide)
  exact all.join separates (List.cons_ne_nil _ _)

/-- The report's own node is an IRI. -/
theorem report_minted : Minted reportIri := by
  have word : Rfc3987.isPath "validation:report".toList = true := by
    have letters : "validation:report".toList =
        "validation".toList ++ (":".toList ++ "report".toList) := by
      decide
    rw [letters]
    exact path_append (letters_path _ (by decide))
      (path_append colon_path (letters_path _ (by decide)))
  exact ⟨_, by decide, word⟩

/-- A report is read back as its graph. -/
theorem report_read [IriSyntax] [ContentHash] (id : Text) (spec : ActionSpec) (proposed : Text)
    (capability : Capability) :
    Turtle.read (validationReport (spec.contractIri id) spec proposed capability) =
      some (graph (spec.contractIri id) spec proposed capability) := by
  have minted := contract_minted spec id
  have type := type_property (sh_word_spells "ValidationReport" (by decide)).lists
  have conforms := sh_property "conforms" (by decide)
    (boolean_spells (entries (spec.contractIri id) spec proposed capability).isEmpty)
  have sound := entries_sound (spec.contractIri id) minted spec proposed capability
  have results := Turtle.statement_sets (fun entry => resultSeparator.intercalate
      (resultPredicates (spec.contractIri id) entry)) (resultMeans (spec.contractIri id))
    property_separates (sh_declares.predicates "result".toList (by decide))
    (entries (spec.contractIri id) spec proposed capability) report_minted.valid
    (type.append conforms) (List.cons_ne_nil _ _)
    (fun entry member => result_describes _ minted entry (sound entry member))
    { names := shNames } rfl rfl rfl
  have heading := Turtle.heading_sets sh_declares
  have gap := Turtle.space_sets "\n\n".toList (by decide) { names := shNames }
  have whole := heading.sets ((gap.sets results).sets (Turtle.space_sets "\n".toList (by decide) _))
  exact Turtle.read_of_sets whole rfl rfl

end Report

/-- What an owner's IRI reads as, its id as it is. -/
def CatalogOwner.reads [ContentHash] : CatalogOwner → Text
  | endpoint id => endpointPrefix ++ id
  | contract id spec => contractPrefix ++ id ++ ":".toList ++ verbSegment spec.verb ++ ":".toList ++
      (spec.contractId id).text

/-- What a node's suffix reads as, its names as they are: of a group, its members. -/
def CatalogNode.Reads : CatalogNode → Text → Prop
  | self, read => read = []
  | input name, read => read = ":input:".toList ++ name
  | value name item, read => read = ":input:".toList ++ name ++ ":value:".toList ++ item
  | group members, read => ∃ names, (∀ name, name ∈ names ↔ name ∈ members.members) ∧
      read = ":".toList ++ ("group:".toList ++ members.kind.word ++ ":".toList ++
        ",".toList.intercalate names)

section Decoding

/-- An encoded name decodes to the name. -/
theorem Decodes.name (name : Text) : Decodes (encodeName name) name :=
  .encoded mustEncode (by decide) name

/-- A colon decodes to itself. -/
theorem colon_decodes : Decodes ":".toList ":".toList := .plain _ (by decide)

/-- A verb's segment decodes to itself. -/
theorem verb_decodes (verb : Verb) : Decodes (verbSegment verb) (verbSegment verb) :=
  .plain _ (by cases verb <;> decide)

/-- A digest decodes to itself: it holds no percent sign. -/
theorem digest_decodes (digest : ContractDigest) : Decodes digest.text digest.text := by
  refine .plain _ fun member => ?_
  rcases List.mem_append.mp member with tag | hex
  · exact absurd tag (by decide)
  · obtain ⟨byte, _, inside⟩ := List.mem_flatMap.mp hex
    have small : byte.toNat < 256 := byte.toNat_lt
    have digits : ∀ digit < 16, '%' ≠ lowerHexDigit digit := by decide
    simp only [lowerHex, List.mem_cons, List.not_mem_nil, or_false] at inside
    rcases inside with high | low
    · exact digits _ (by omega) high
    · exact digits _ (by omega) low

/-- Members joined by commas decode to the members, joined by commas. -/
theorem joined_decodes (names : List Text) :
    Decodes (",".toList.intercalate (names.map InputGroup.memberSegment))
      (",".toList.intercalate names) := by
  induction names with
  | nil => exact .nil
  | cons name names ih =>
    have first : Decodes (InputGroup.memberSegment name) name := by
      rw [InputGroup.member_segment_encodes]
      exact .encoded _ (by decide) name
    cases names with
    | nil => simpa using first
    | cons other names =>
      have comma : Decodes ",".toList ",".toList := .plain _ (by decide)
      exact first.append (comma.append ih)

/-- An owner's IRI decodes to what it reads as. -/
theorem owner_decodes [ContentHash] (owner : CatalogOwner) : Decodes owner.iri owner.reads := by
  cases owner with
  | endpoint id =>
    have head : Decodes endpointPrefix endpointPrefix := .plain _ (by decide)
    exact head.append (.name id)
  | contract id spec =>
    have head : Decodes contractPrefix contractPrefix := .plain _ (by decide)
    exact ((((head.append (.name id)).append colon_decodes).append
      (verb_decodes spec.verb)).append colon_decodes).append (digest_decodes _)

/-- A group's suffix decodes to what the group reads as, its members in the order of their
segments. -/
theorem group_decodes (group : InputGroup) :
    ∃ read, (CatalogNode.group group).Reads read ∧
      Decodes (CatalogNode.group group).suffix read := by
  -- the members in the order their segments are joined in
  let segments := (OrderedSet.ofList (group.members.map InputGroup.memberSegment)).items
  have each : ∀ segment ∈ segments, ∃ name ∈ group.members,
      InputGroup.memberSegment name = segment := fun segment member =>
    List.mem_map.mp ((OrderedSet.mem_of_list _ _).mp member)
  have decoded : ∀ name, decodeSegment (InputGroup.memberSegment name) = some name := by
    intro name
    rw [InputGroup.member_segment_encodes, decode_encode_where _ (by decide)]
  let names := segments.map fun segment => (decodeSegment segment).getD []
  have spelled : names.map InputGroup.memberSegment = segments := by
    rw [List.map_map, List.map_congr_left (g := id), List.map_id]
    intro segment member
    obtain ⟨name, _, rfl⟩ := each segment member
    simp only [Function.comp_apply, decoded, Option.getD_some, id]
  refine ⟨_, ⟨names, fun name => ?_, rfl⟩, ?_⟩
  · constructor
    · intro member
      obtain ⟨segment, inside, rfl⟩ := List.mem_map.mp member
      obtain ⟨own, listed, rfl⟩ := each segment inside
      rwa [decoded, Option.getD_some]
    · intro member
      refine List.mem_map.mpr ⟨InputGroup.memberSegment name,
        (OrderedSet.mem_of_list _ _).mpr (List.mem_map_of_mem member), ?_⟩
      rw [decoded, Option.getD_some]
  · have word : Decodes "group:".toList "group:".toList := .plain _ (by decide)
    have kind : Decodes group.kind.word group.kind.word :=
      .plain _ (by cases group.kind <;> decide)
    have joined := joined_decodes names
    rw [spelled] at joined
    exact colon_decodes.append (((word.append kind).append colon_decodes).append joined)

/-- Every node's suffix decodes to what the node reads as. -/
theorem node_decodes (node : CatalogNode) : ∃ read, node.Reads read ∧ Decodes node.suffix read := by
  have word : Decodes ":input:".toList ":input:".toList := .plain _ (by decide)
  cases node with
  | self => exact ⟨_, rfl, .nil⟩
  | input name => exact ⟨_, rfl, word.append (.name name)⟩
  | value name item =>
    have further : Decodes ":value:".toList ":value:".toList := .plain _ (by decide)
    exact ⟨_, rfl, ((word.append (.name name)).append further).append (.name item)⟩
  | group members => exact group_decodes members

/-- A node's IRI reads back as its owner's id and its own names. -/
theorem thing_decodes [ContentHash] (thing : CatalogThing) :
    ∃ read, thing.node.Reads read ∧ decodeSegment thing.iri = some (thing.owner.reads ++ read) := by
  obtain ⟨read, reads, decodes⟩ := node_decodes thing.node
  exact ⟨read, reads, ((owner_decodes thing.owner).append decodes).segment⟩

/-- The IRI of a match decodes to its verb and its door. -/
theorem match_decodes (found : ActionMatch) :
    decodeSegment found.matchIri =
      some (matchPrefix ++ verbSegment found.verb ++ ":".toList ++ found.endpoint) := by
  have head : Decodes matchPrefix matchPrefix := .plain _ (by decide)
  exact (((head.append (verb_decodes found.verb)).append colon_decodes).append
    (.name found.endpoint)).segment

end Decoding

/-- Each Turtle face is read back as the graph it means, a minted IRI as the names it was minted
from, and a scope as one term, whatever strings the authors wrote. -/
theorem author_strings_kept [IriSyntax] [ContentHash]
    (rfc : ∀ text, IriSyntax.isIri text = Rfc3987.isIri text) :
    (∀ description, Turtle.read (Vocab.toTurtle description) = some (Vocab.graph description)) ∧
    (∀ entries probe query,
      Turtle.read (actionsTurtle (selectActionsBounded entries probe query).1) =
        some (matchGraph (selectActionsBounded entries probe query).1)) ∧
    (∀ id spec proposed capability,
      Turtle.read (Report.validationReport (spec.contractIri id) spec proposed capability) =
        some (Report.graph (spec.contractIri id) spec proposed capability)) ∧
    (∀ thing : CatalogThing, ∃ read, thing.node.Reads read ∧
      decodeSegment thing.iri = some (thing.owner.reads ++ read)) ∧
    (∀ found : ActionMatch, decodeSegment found.matchIri =
      some (matchPrefix ++ verbSegment found.verb ++ ":".toList ++ found.endpoint)) ∧
    ∀ names scope, ∃ term, Spells names (Vocab.capTerm scope) term ∧
      Spells names (scopeTerm scope) term :=
  ⟨Vocab.to_turtle_read rfc, actions_turtle_read rfc, Report.report_read, thing_decodes,
    match_decodes, fun _ scope =>
      ⟨scopeMeant scope, cap_term_spells rfc scope, scope_term_spells rfc scope⟩⟩

namespace HostileStrings

local instance exactIri : IriSyntax := ⟨Rfc3987.isIri, fun _ => []⟩

local instance zeroHash : ContentHash := ⟨fun _ => Vector.replicate 32 0⟩

def hostile : Description :=
  { id := "evil> ; a <urn:x".toList
    title := "\" .\n<urn:y> a <urn:z> .".toList
    verbs := [.source]
    inputs := [{ name := "100%".toList, «class» := some "http://ok> . <urn:z".toList }]
    «requires» := ["urn:cap:100%".toList] }

/-- Strings that would close an IRI or a literal stay strings. -/
theorem hostile_kept :
    Turtle.read (Vocab.toTurtle hostile) = some (Vocab.graph hostile) :=
  (author_strings_kept fun _ => rfl).1 hostile

end HostileStrings

end Ikigai
