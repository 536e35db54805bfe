import Ikigai.CatalogGraph
import Ikigai.ContractIri
import Ikigai.FaceGraphs
import Ikigai.Floor
import Ikigai.KernelOps
import Ikigai.StreamRange

/-!
# Validating a proposed call

A proposed call is checked against the contract its action names: a match IRI, a contract
IRI, an older spelling by the endpoint's id, or the name of a door with a verb. The walk that
offers a match keeps the first entry that describes itself; looking the match up again asks
the first entry of its pattern. A contract that is hidden from the caller is not found, as if
its door were bound nowhere.
-/

namespace Ikigai

/-- A space as the walks over it see it: what it lists, and what a name is described as. -/
structure DescribedSpace where
  entries : List SpaceEntry
  probe : Iri → Option Probed

namespace DescribedSpace

variable [IriSyntax]

/-- What a pattern is described as. -/
def describePattern (space : DescribedSpace) (pattern : Text) : Option Description :=
  match Iri.parse pattern with
  | some name => (space.probe name).map Probed.description
  | none =>
    ((space.entries.find? fun entry => entry.pattern = pattern).bind
      (describeEntry space.probe)).map EntryDescription.description

/-- The doors whose description has an id, each with its pattern. -/
def descriptionsForId (space : DescribedSpace) (id : Text) : List (Text × Description) :=
  space.entries.filterMap fun entry =>
    (describeEntry space.probe entry).bind fun described =>
      if described.description.id = id then some (entry.pattern, described.description) else none

end DescribedSpace

/-- `parse_verb`: a verb by its name, in any case. -/
def parseVerb (name : Text) : Except Error Verb :=
  match parseVerbSegment (MediaType.lower name) with
  | some verb => .ok verb
  | none => .error (.endpoint ("unknown verb \"".toList ++ MediaType.lower name ++
      "\" (source, sink, exists, delete, meta)".toList))

/-- Whether a description is not hidden from a caller for a verb. -/
def shown [IriSyntax] (capability : Capability) (verb : Verb) (description : Description) : Bool :=
  !(Floor.of description).conceals verb capability

/-- A verb's contract of a description, as the IRI it has under an id. -/
def contractUnder [ContentHash] (verb : Verb) (id : Text) (description : Description) :
    Option Text :=
  (description.actionSpecs.find? fun spec => spec.verb = verb).map fun spec => spec.contractIri id

def actionMarker : Text := ":action:".toList

section Targets

variable [IriSyntax] [ContentHash]

/-- The door and verb of a match IRI. -/
def matchTarget (space : DescribedSpace) (capability : Capability) (verb : Verb) (pattern : Text) :
    Except Error (Description × Verb) :=
  match (space.describePattern pattern).filter (shown capability verb) with
  | some description => .ok (description, verb)
  | none => .error (.endpoint ("validate: no door `".toList ++ pattern ++ "` (from `".toList ++
      matchIri verb pattern ++ "`)".toList))

/-- A bound contract with an id, a verb and a digest. -/
def contractTarget (space : DescribedSpace) (capability : Capability) (id : Text) (verb : Verb)
    (digest : ContractDigest) : Except Error (Description × Verb) :=
  match (((space.descriptionsForId id).map Prod.snd).filter (shown capability verb)).find?
      fun description => description.actionSpecs.any fun spec =>
        decide (spec.verb = verb) && decide (spec.contractId id = digest) with
  | some description => .ok (description, verb)
  | none => .error (.endpoint ("validate: no bound endpoint carries `".toList ++
      contractIriOf id verb digest ++ "`".toList))

/-- The door and verb of an older spelling, while every door with the id agrees on the verb. -/
def endpointTarget (space : DescribedSpace) (capability : Capability) (action id : Text)
    (verb : Verb) : Except Error (Description × Verb) :=
  let doors := (space.descriptionsForId id).filter fun door => shown capability verb door.2
  match doors with
  | [] => .error (.endpoint ("validate: no endpoint with id `".toList ++ id ++ "`".toList))
  | first :: _ =>
    if doors.any fun door => contractUnder verb id door.2 ≠ contractUnder verb id first.2 then
      .error (.endpoint ("validate: `".toList ++ action ++
        "` is ambiguous: doors with id `".toList ++ id ++ "` declare different ".toList ++
        verbName verb ++ " contracts; name one by its match IRI: ".toList ++
        ", ".toList.intercalate (doors.map fun door => matchIri verb door.1)))
    else .ok (first.2, verb)

/-- An older spelling, cut into its id and its verb. -/
def readEndpointAction (action : Text) : Except Error (Text × Verb) :=
  match action.stripPrefix endpointPrefix with
  | none => .error (.endpoint (("validate: action must be a match IRI " ++
      "(urn:ikigai:match:<verb>:<door>), a contract IRI " ++
      "(urn:ikigai:contract:<id>:<verb>:b3:<hex>) or a catalog action IRI " ++
      "(urn:ikigai:endpoint:<id>:action:<verb>), not `").toList ++ action ++ "`".toList))
  | some rest =>
    match Text.cutText actionMarker rest with
    | none => .error (.endpoint ("validate: `".toList ++ action ++
        "` names no :action: segment".toList))
    | some (id, name) => (parseVerb name).map fun verb => (id, verb)

/-- `validate_target`: the description and verb an action names, in any of its spellings. -/
def validateTarget (space : DescribedSpace) (capability : Capability) (action : Text) :
    Except Error (Description × Verb) :=
  match parseMatchIri action with
  | some (verb, pattern) => matchTarget space capability verb pattern
  | none =>
    match parseContractIri action with
    | some (id, verb, digest) => contractTarget space capability id verb digest
    | none =>
      match readEndpointAction action with
      | .ok (id, verb) => endpointTarget space capability action id verb
      | .error error => .error error

end Targets

/-- An inline argument, read as UTF-8. -/
def kernelArg (request : Request) (name : String) : Option Text :=
  match argNamed request.args name.toList with
  | some (.inline bytes) => Text.ofBytes bytes
  | some (.reference _) | some (.content _) | none => none

/-- An argument that is not blank. -/
def givenArg (request : Request) (name : String) : Option Text :=
  (kernelArg request name).filter fun value => given (some value)

/-- `kernel_single_face`: the one face an operation has, if a face is asked for. -/
def kernelSingleFace (request : Request) (face : Text) : Except Error Unit :=
  match (kernelArg request "as").map Text.trim with
  | none => .ok ()
  | some asked =>
    if asked = face then .ok ()
    else .error (.invalidArgument "as".toList ("`".toList ++ asked ++ "` is not a face of `".toList ++
      request.target ++ "` (".toList ++ face ++ ")".toList))

section Operation

variable [IriSyntax] [ContentHash]

/-- A door by its name, in the caller's chain, with a verb. -/
def namedTarget (probe : Iri → Option Probed) (capability : Capability) (request : Request)
    (endpoint : Text) : Except Error (Description × Verb) :=
  match givenArg request "verb" with
  | none => .error (.missingArgument "verb".toList)
  | some verbName =>
    match Iri.parse endpoint with
    | none => .error (.endpoint ("validate: bad endpoint IRI: ".toList ++
        IriSyntax.refusal endpoint))
    | some name =>
      match probe name with
      | none => .error (.unresolved name)
      | some probed =>
        let verb := parseVerb verbName
        if !shown capability (verb.toOption.getD .«meta») probed.description then
          .error (.unresolved name)
        else verb.map fun verb => (probed.description, verb)

/-- What the call is checked against. -/
def validated (space : DescribedSpace) (probe : Iri → Option Probed) (capability : Capability)
    (request : Request) : Except Error (Description × Verb) :=
  match givenArg request "action", givenArg request "endpoint" with
  | some _, some _ => .error (.invalidArgument "action".toList
      ("exactly one of `action` or `endpoint` (with `verb`) names the action; got both").toList)
  | some action, none => validateTarget space capability action
  | none, some endpoint => namedTarget probe capability request endpoint
  | none, none => .error (.missingArgument "action (or endpoint + verb)".toList)

/-- A report, with the bound on keeping it. -/
structure ValidationAnswer where
  report : Text
  caching : ContractCaching
deriving DecidableEq, Repr

/-- The validate arm: the report of the proposed arguments against the contract that is named. A
door named with a verb is sought in the caller's chain. -/
def validate (space : DescribedSpace) (probe : Iri → Option Probed) (capability : Capability)
    (request : Request) : Except Error ValidationAnswer :=
  match kernelSingleFace request KernelOps.textTurtle with
  | .error error => .error error
  | .ok () =>
    match validated space probe capability request with
    | .error error => .error error
    | .ok (description, verb) =>
      match description.actionSpecs.find? fun spec => spec.verb = verb with
      | none => .error (.endpoint ("validate: `".toList ++ description.id ++ "` declares no ".toList ++
          verbName verb ++ " action".toList))
      | some spec => .ok
          { report := Report.validationReport (spec.contractIri description.id) spec
              ((kernelArg request "args").getD []) capability
            caching := description.contractCaching }

end Operation

section LeadingBack

variable [IriSyntax]

/-- A pattern leads back to what is offered under it: it is a name, or the first entry that has
it describes itself. -/
def DescribedSpace.LeadsBack (space : DescribedSpace) (pattern : Text) : Prop :=
  IriSyntax.isIri pattern = true ∨
    ∃ entry, space.entries.find? (fun entry => entry.pattern = pattern) = some entry ∧
      (describeEntry space.probe entry).isSome = true

/-- An entry that describes itself is how its pattern is described, if the pattern leads back. -/
theorem describe_pattern_of_entry (space : DescribedSpace) (entry : SpaceEntry)
    (described : EntryDescription) (describes : describeEntry space.probe entry = some described)
    (leads : space.LeadsBack entry.pattern) :
    space.describePattern entry.pattern = some described.description := by
  unfold DescribedSpace.describePattern
  cases parsed : Iri.parse entry.pattern with
  | some name =>
    unfold describeEntry at describes
    rw [parsed] at describes
    obtain ⟨probed, found, rfl⟩ := Option.map_eq_some_iff.mp describes
    change (space.probe name).map Probed.description = _
    rw [found]
    rfl
  | none =>
    rcases leads with valid | ⟨first, found, isSome⟩
    · rw [Iri.parse, if_pos valid] at parsed
      cases parsed
    · obtain ⟨described', describes'⟩ := Option.isSome_iff_exists.mp isSome
      have pattern : first.pattern = entry.pattern := by
        simpa using List.find?_some found
      have same := describe_entry_same space.probe entry first described described' pattern
        describes describes'
      simp only [found, Option.bind_some, describes', same, Option.map_some]

/-- A pattern that does not lead back to the door it is of describes nothing. -/
theorem describe_pattern_none (space : DescribedSpace) (pattern : Text)
    (lost : ¬space.LeadsBack pattern) : space.describePattern pattern = none := by
  unfold DescribedSpace.describePattern Iri.parse
  have other : ¬IriSyntax.isIri pattern = true := fun valid => lost (.inl valid)
  rw [if_neg other]
  cases found : space.entries.find? fun entry => entry.pattern = pattern with
  | none => rfl
  | some entry =>
    cases describes : describeEntry space.probe entry with
    | none => simp only [Option.bind_some, describes, Option.map_none]
    | some described => exact absurd (.inr ⟨entry, found, by rw [describes]; rfl⟩) lost

/-- An action whose every scope is satisfied is not hidden. -/
theorem shown_of_satisfied (capability : Capability) (description : Description)
    (action : ActionSpec) (declared : action ∈ description.actionSpecs)
    (satisfied : (action.requires.all fun scope => capability.satisfies scope) = true) :
    shown capability action.verb description = true := by
  have acts : action.verb ≠ .«meta» := by
    obtain ⟨verb, listed, rfl⟩ := List.mem_map.mp declared
    have other := (List.mem_filter.mp listed).2
    rw [description.action_of_verb]
    simpa using other
  rw [shown, Bool.not_eq_true']
  by_contra hidden
  rw [Bool.not_eq_false] at hidden
  have lacks := (Floor.of description).conceals_lacks action.verb capability acts hidden
  have own : Floor.own (Floor.of description).declared action.verb = some action.requires := by
    have table := Floor.own_table description.actionSpecs ActionSpec.requires action.verb
    rw [description.find_action_spec action declared] at table
    exact table
  have none : (Floor.of description).unsatisfied action.verb capability = none := by
    have needed : (Floor.of description).requirements action.verb = action.requires := by
      unfold Floor.requirements
      rw [own]
    rw [Floor.unsatisfied_eq_none_iff, needed]
    exact satisfied
  rw [none] at lacks
  cases lacks

end LeadingBack

namespace Report

/-- A report says that the call conforms. -/
def Conforms (report : Text) : Prop :=
  ∃ triples, Turtle.read report = some triples ∧
    ⟨.iri reportIri, shaclNamespace ++ "conforms".toList, .boolean true⟩ ∈ triples

/-- What is said of nested nodes is of the subject with one property, or of a blank node. -/
theorem mem_nested (subject : Turtle.Term) (predicate : Text) (label : Nat)
    (nodes : List (List Turtle.Property)) (triple : Turtle.Triple)
    (member : triple ∈ Turtle.nestedTriples subject predicate label nodes) :
    triple.predicate = predicate ∨ ∃ label, triple.subject = .blank label := by
  induction nodes generalizing label with
  | nil => cases member
  | cons properties nodes ih =>
    rw [Turtle.nestedTriples, List.cons_append] at member
    rcases List.mem_cons.mp member with rfl | member
    · exact .inl rfl
    · rcases List.mem_append.mp member with own | later
      · obtain ⟨property, _, rfl⟩ := List.mem_map.mp own
        exact .inr ⟨label, rfl⟩
      · exact ih (label + 1) later

section Conforming

variable [IriSyntax] [ContentHash]

omit [ContentHash] in
/-- A report has no entry exactly when the check finds nothing and the capability satisfies every
scope that is required. -/
theorem entries_nil_iff (contract : Text) (spec : ActionSpec) (proposed : Text)
    (capability : Capability) :
    (entries contract spec proposed capability).isEmpty = true ↔
      spec.check (ProposedArgs.parse proposed) = [] ∧
        ∀ scope ∈ spec.requires, capability.satisfies scope = true := by
  rw [List.isEmpty_iff, entries, List.append_eq_nil_iff, List.map_eq_nil_iff, List.map_eq_nil_iff,
    List.filter_eq_nil_iff]
  constructor
  · rintro ⟨held, none⟩
    exact ⟨none, fun scope member => by simpa using held scope member⟩
  · rintro ⟨none, held⟩
    exact ⟨fun scope member => by simp [held scope member], none⟩

/-- A report says that the call conforms exactly when no rule is broken and no scope is lacking. -/
theorem conforms_iff (id : Text) (spec : ActionSpec) (proposed : Text) (capability : Capability) :
    Conforms (validationReport (spec.contractIri id) spec proposed capability) ↔
      spec.check (ProposedArgs.parse proposed) = [] ∧
        ∀ scope ∈ spec.requires, capability.satisfies scope = true := by
  rw [← entries_nil_iff (spec.contractIri id)]
  constructor
  · rintro ⟨triples, reads, member⟩
    rw [report_read, Option.some.injEq] at reads
    subst reads
    rcases List.mem_append.mp member with plain | nested
    · simp only [Turtle.triplesOf, List.map_cons, List.map_nil, List.mem_cons, List.not_mem_nil,
        or_false] at plain
      rcases plain with type | conforms
      · have predicates := congrArg Turtle.Triple.predicate type
        exact absurd predicates (by decide)
      · have objects := congrArg Turtle.Triple.object conforms
        cases empty : (entries (spec.contractIri id) spec proposed capability).isEmpty with
        | true => rfl
        | false =>
          rw [empty] at objects
          exact absurd objects (by decide)
    · rcases mem_nested _ _ _ _ _ nested with predicate | ⟨label, subject⟩
      · exact absurd predicate (by decide)
      · cases subject
  · intro empty
    refine ⟨_, report_read id spec proposed capability, List.mem_append_left _ ?_⟩
    rw [empty]
    exact List.mem_cons_of_mem _ (List.mem_singleton_self _)

end Conforming

end Report

/-- A request that names an action, and nothing else to check against. -/
structure NamesAction (request : Request) (action : Text) : Prop where
  face : kernelSingleFace request KernelOps.textTurtle = .ok ()
  action : kernelArg request "action" = some action
  alone : givenArg request "endpoint" = none

/-- A text with a character that is not white space was given. -/
theorem given_of_mem (text : Text) (c : Char) (inside : c ∈ text)
    (black : Text.isWhitespace c = false) : given (some text) = true := by
  have trimmed : Text.trim text ≠ [] := by
    intro blank
    have spaces := List.rdropWhile_eq_nil_iff.mp blank
    have nothing : text.dropWhile Text.isWhitespace = [] := by
      cases left : text.dropWhile Text.isWhitespace with
      | nil => rfl
      | cons head rest =>
        have shown := List.head?_dropWhile_not Text.isWhitespace text
        rw [left] at shown spaces
        have space := spaces head List.mem_cons_self
        exact absurd (space.symm.trans shown) (by decide)
    rw [List.dropWhile_eq_nil_iff.mp nothing c inside] at black
    cases black
  simpa [given] using trimmed

namespace NamesAction

variable [IriSyntax] [ContentHash] {request : Request} {action : Text}

/-- A request that names one action is checked against it. -/
theorem validated_eq (names : NamesAction request action) (written : given (some action) = true)
    (space : DescribedSpace) (probe : Iri → Option Probed) (capability : Capability) :
    validated space probe capability request = validateTarget space capability action := by
  have asked : givenArg request "action" = some action := by
    rw [givenArg, names.action]
    exact if_pos written
  rw [validated, asked, names.alone]

end NamesAction

section ReadingBack

variable [IriSyntax] [ContentHash]

/-- The answer checks an action that a bound entry declares under a contract: it is the report
of the proposed arguments, which says that they conform exactly when they break no rule and no
scope is lacking. -/
structure ChecksAction (space : DescribedSpace) (contract : Text) (capability : Capability)
    (proposed : Text) (answer : ValidationAnswer) (entry : SpaceEntry)
    (described : EntryDescription) (action : ActionSpec) : Prop where
  listed : entry ∈ space.entries
  describes : describeEntry space.probe entry = some described
  declared : action ∈ described.description.actionSpecs
  carries : action.contractIri described.description.id = contract
  report : answer.report = Report.validationReport contract action proposed capability
  conforms : Report.Conforms answer.report ↔ action.check (ProposedArgs.parse proposed) = [] ∧
    ∀ scope ∈ action.requires, capability.satisfies scope = true

/-- A match is read back: its own IRI is checked as the door's contract, and the contract's IRI
as some bound door's. -/
structure ReadBack (space : DescribedSpace) (probe : Iri → Option Probed) (capability : Capability)
    (found : ActionMatch) : Prop where
  door : ∀ request, NamesAction request found.matchIri → ∃ answer entry described action,
    validate space probe capability request = .ok answer ∧ entry.pattern = found.endpoint ∧
      ChecksAction space found.action capability ((kernelArg request "args").getD []) answer entry
        described action
  contract : ∀ request, NamesAction request found.action → ∃ answer entry described action,
    validate space probe capability request = .ok answer ∧
      ChecksAction space found.action capability ((kernelArg request "args").getD []) answer entry
        described action

/-- The report of a declared action, once its door is found. -/
theorem checks_of_target (space : DescribedSpace) (probe : Iri → Option Probed)
    (capability : Capability) (request : Request) (named : Text)
    (names : NamesAction request named) (written : given (some named) = true) (entry : SpaceEntry)
    (described : EntryDescription) (action : ActionSpec) (listed : entry ∈ space.entries)
    (describes : describeEntry space.probe entry = some described)
    (declared : action ∈ described.description.actionSpecs)
    (target : validateTarget space capability named = .ok (described.description, action.verb)) :
    ∃ answer, validate space probe capability request = .ok answer ∧
      ChecksAction space (action.contractIri described.description.id) capability
        ((kernelArg request "args").getD []) answer entry described action := by
  refine ⟨⟨Report.validationReport (action.contractIri described.description.id) action
    ((kernelArg request "args").getD []) capability, described.description.contractCaching⟩, ?_, ?_⟩
  · rw [validate, names.face, names.validated_eq written, target]
    simp only [described.description.find_action_spec action declared]
  · exact {
      listed
      describes
      declared
      carries := rfl
      report := rfl
      conforms := Report.conforms_iff described.description.id action _ capability }

/-- A match IRI asks for the pattern's own description. -/
theorem validate_target_match (space : DescribedSpace) (capability : Capability) (verb : Verb)
    (pattern : Text) :
    validateTarget space capability (matchIri verb pattern) =
      matchTarget space capability verb pattern := by
  rw [validateTarget, parse_match_iri]

/-- A contract IRI asks for a bound door that declares the contract. -/
theorem validate_target_contract (space : DescribedSpace) (capability : Capability) (id : Text)
    (verb : Verb) (digest : ContractDigest) :
    validateTarget space capability (contractIriOf id verb digest) =
      contractTarget space capability id verb digest := by
  have other : parseMatchIri (contractIriOf id verb digest) = none := by
    rw [parseMatchIri]
    cases stripped : (contractIriOf id verb digest).stripPrefix matchPrefix with
    | none => rfl
    | some rest =>
      have heads := congrArg (List.take 12) ((Text.strip_prefix_eq_some _ _ _).mp stripped)
      rw [contractIriOf, List.append_assoc, List.append_assoc, List.append_assoc, List.append_assoc,
        List.take_append_of_le_length (by decide), List.take_append_of_le_length (by decide)]
        at heads
      exact absurd heads (by decide)
  rw [validateTarget, other, parse_contract_iri]

omit [ContentHash] in
/-- The descriptions listed for an id are those of the entries whose doors describe themselves by
it. -/
theorem mem_descriptions_for_id (space : DescribedSpace) (id pattern : Text)
    (description : Description) :
    (pattern, description) ∈ space.descriptionsForId id ↔ ∃ entry ∈ space.entries,
      entry.pattern = pattern ∧ description.id = id ∧
        ∃ described, describeEntry space.probe entry = some described ∧
          described.description = description := by
  unfold DescribedSpace.descriptionsForId
  rw [List.mem_filterMap]
  constructor
  · rintro ⟨entry, listed, kept⟩
    obtain ⟨described, describes, kept⟩ := Option.bind_eq_some_iff.mp kept
    split at kept
    · rename_i own
      cases kept
      exact ⟨entry, listed, rfl, own, described, describes, rfl⟩
    · cases kept
  · rintro ⟨entry, listed, rfl, own, described, describes, rfl⟩
    exact ⟨entry, listed, Option.bind_eq_some_iff.mpr ⟨described, describes, if_pos own⟩⟩

/-- A contract that a door declares to a caller who satisfies it leads to a door that declares
it. -/
theorem contract_target_found (space : DescribedSpace) (capability : Capability)
    (entry : SpaceEntry) (described : EntryDescription) (action : ActionSpec)
    (listed : entry ∈ space.entries) (describes : describeEntry space.probe entry = some described)
    (declared : action ∈ described.description.actionSpecs)
    (satisfied : (action.requires.all fun scope => capability.satisfies scope) = true) :
    ∃ entry' described' action', entry' ∈ space.entries ∧
      describeEntry space.probe entry' = some described' ∧
      action' ∈ described'.description.actionSpecs ∧
      action'.contractIri described'.description.id =
        action.contractIri described.description.id ∧
      contractTarget space capability described.description.id action.verb
        (action.contractId described.description.id) =
          .ok (described'.description, action'.verb) := by
  let carries := fun description : Description => description.actionSpecs.any fun spec =>
    decide (spec.verb = action.verb) && decide (spec.contractId described.description.id =
      action.contractId described.description.id)
  have own : (entry.pattern, described.description) ∈
      space.descriptionsForId described.description.id :=
    (mem_descriptions_for_id _ _ _ _).mpr ⟨entry, listed, rfl, rfl, described, describes, rfl⟩
  have inside : described.description ∈
      ((space.descriptionsForId described.description.id).map Prod.snd).filter
        (shown capability action.verb) :=
    List.mem_filter.mpr ⟨List.mem_map_of_mem own,
      shown_of_satisfied capability described.description action declared satisfied⟩
  have carried : carries described.description = true :=
    List.any_eq_true.mpr ⟨action, declared, by simp⟩
  cases search : (((space.descriptionsForId described.description.id).map Prod.snd).filter
      (shown capability action.verb)).find? carries with
  | none => exact absurd carried (List.find?_eq_none.mp search _ inside)
  | some description =>
    obtain ⟨⟨pattern, description'⟩, member, rfl⟩ :=
      List.mem_map.mp (List.mem_filter.mp (List.mem_of_find?_eq_some search)).1
    obtain ⟨entry', listed', _, id, described', describes', rfl⟩ :=
      (mem_descriptions_for_id _ _ _ _).mp member
    have found : carries described'.description = true := List.find?_some search
    obtain ⟨action', declared', agrees⟩ := List.any_eq_true.mp found
    obtain ⟨verb, digest⟩ : action'.verb = action.verb ∧ action'.contractId
        described.description.id = action.contractId described.description.id := by
      simpa using agrees
    refine ⟨entry', described', action', listed', describes', declared', ?_, ?_⟩
    · rw [ActionSpec.contractIri, ActionSpec.contractIri, id, verb, digest]
    · rw [contractTarget, search, verb]

/-- The request that validates an action, and names nothing else. -/
def validateRequest (target : Iri) (action : Text) : Request :=
  ⟨.source, target, [("action".toList, .inline action.asBytes)]⟩

omit [IriSyntax] [ContentHash] in
/-- A request to validate names what it is to validate. -/
theorem names_validate_request (target : Iri) (action : Text) :
    NamesAction (validateRequest target action) action where
  face := rfl
  action := Text.of_bytes_as_bytes action
  alone := rfl

/-- What is offered is read back exactly when its pattern leads back. -/
theorem read_back_iff (space : DescribedSpace) (probe : Iri → Option Probed)
    (capability : Capability) (query : ActionQuery) (asked : query.capability = some capability)
    (found : ActionMatch)
    (offered : found ∈ (selectActionsBounded space.entries space.probe query).1) :
    ReadBack space probe capability found ↔ space.LeadsBack found.endpoint := by
  obtain ⟨entry, described, action, listed, describes, declared, admitted, rfl⟩ :=
    offered_of_selected space.entries space.probe query found offered
  have satisfied : (action.requires.all fun scope => capability.satisfies scope) = true := by
    simp only [ActionQuery.admits, asked, Bool.and_eq_true, Option.all_some] at admitted
    exact admitted.1.1.2
  have letter : Text.isWhitespace 'u' = false := by decide
  constructor
  · intro back
    by_contra lost
    obtain ⟨answer, _, _, _, answers, _⟩ := back.door
      (validateRequest "urn:kernel:validate".toList (matchIri action.verb entry.pattern))
      (names_validate_request _ _)
    rw [validate, (names_validate_request _ _).face, (names_validate_request _ _).validated_eq
      (given_of_mem (matchIri action.verb entry.pattern) 'u' List.mem_cons_self letter),
      validate_target_match, matchTarget,
      describe_pattern_none space entry.pattern lost] at answers
    cases answers
  · intro leads
    constructor
    · intro request names
      have target : validateTarget space capability (matchIri action.verb entry.pattern) =
          .ok (described.description, action.verb) := by
        rw [validate_target_match, matchTarget,
          describe_pattern_of_entry space entry described describes leads, Option.filter_some,
          if_pos (shown_of_satisfied capability described.description action declared satisfied)]
      obtain ⟨answer, answers, checks⟩ := checks_of_target space probe capability request _ names
        (given_of_mem _ 'u' List.mem_cons_self letter) entry described action listed describes
        declared target
      exact ⟨answer, entry, described, action, answers, rfl, checks⟩
    · intro request names
      obtain ⟨entry', described', action', listed', describes', declared', same, target⟩ :=
        contract_target_found space capability entry described action listed describes declared
          satisfied
      obtain ⟨answer, answers, checks⟩ := checks_of_target space probe capability request _ names
        (given_of_mem _ 'u' List.mem_cons_self letter) entry' described' action' listed'
        describes' declared' (by rw [← target]; exact validate_target_contract ..)
      rw [same] at checks
      exact ⟨answer, entry', described', action', answers, checks⟩

end ReadingBack

section Hidden

variable [IriSyntax]

/-- The name that a pattern is probed with. -/
def probedName (pattern : Text) : Option Iri :=
  match Iri.parse pattern with
  | some name => some name
  | none =>
    match UriTemplate.parse pattern with
    | .error _ => none
    | .ok template => if template.variableNames.isEmpty then none else probeName template

/-- The names of a door that is hidden from a caller for a verb in one space, and that reach
nothing in another. -/
structure Removed (probe other : Iri → Option Probed) (names : Iri → Prop) (verb : Verb)
    (capability : Capability) : Prop where
  hidden : ∀ name, names name → ∀ probed, probe name = some probed →
    shown capability verb probed.description = false
  gone : ∀ name, names name → other name = none

/-- A space without a door: the door's names reach nothing, its rows may be missing, and no other
row with the door's id is described otherwise. -/
structure DescribedSpace.Without (space other : DescribedSpace) (names : Iri → Prop) (id : Text)
    (verb : Verb) (capability : Capability) : Prop extends
    Removed space.probe other.probe names verb capability where
  same : ∀ name, ¬names name → other.probe name = space.probe name ∨
    ∀ probed, space.probe name = some probed ∨ other.probe name = some probed →
      probed.description.id ≠ id
  rows : ∃ keep : SpaceEntry → Bool, other.entries = space.entries.filter keep ∧
    ∀ entry ∈ space.entries, keep entry = false →
      ∃ name, probedName entry.pattern = some name ∧ names name

/-- A request asks for a door and verb: by a match IRI, by a contract IRI, by the older spelling,
or by a name and a verb. -/
inductive AsksFor (names : Iri → Prop) (id : Text) (verb : Verb) (request : Request) : Prop where
  | door (action pattern : Text) (name : Iri) (asked : givenArg request "action" = some action)
      (parsed : parseMatchIri action = some (verb, pattern))
      (probed : probedName pattern = some name) (own : names name)
  | contract (action : Text) (digest : ContractDigest)
      (asked : givenArg request "action" = some action) (other : parseMatchIri action = none)
      (parsed : parseContractIri action = some (id, verb, digest))
  | endpoint (action : Text) (asked : givenArg request "action" = some action)
      (other : parseMatchIri action = none) (other' : parseContractIri action = none)
      (parsed : readEndpointAction action = .ok (id, verb))
  | name (endpoint verbName : Text) (name : Iri) (unnamed : givenArg request "action" = none)
      (asked : givenArg request "endpoint" = some endpoint)
      (verbAsked : givenArg request "verb" = some verbName)
      (parsedVerb : parseVerb verbName = .ok verb) (parsed : Iri.parse endpoint = some name)
      (own : names name)

/-- An entry whose probed name reaches nothing is not described. -/
theorem describe_entry_none (probe : Iri → Option Probed) (entry : SpaceEntry) (name : Iri)
    (probed : probedName entry.pattern = some name) (unreached : probe name = none) :
    describeEntry probe entry = none := by
  unfold probedName at probed
  unfold describeEntry
  cases parsed : Iri.parse entry.pattern with
  | some own =>
    rw [parsed] at probed
    cases probed
    simp only [unreached, Option.map_none]
  | none =>
    simp only [parsed] at probed
    cases read : UriTemplate.parse entry.pattern with
    | error _ => rfl
    | ok template =>
      simp only [read] at probed ⊢
      split at probed
      · cases probed
      · rename_i vars
        rw [if_neg vars, probed]
        simp only [Option.bind_some, unreached]

/-- An entry is described as its probed name is. -/
theorem describe_entry_probed (probe : Iri → Option Probed) (entry : SpaceEntry)
    (described : EntryDescription) (describes : describeEntry probe entry = some described) :
    ∃ name probed, probedName entry.pattern = some name ∧ probe name = some probed ∧
      described.description = probed.description := by
  unfold describeEntry at describes
  unfold probedName
  cases parsed : Iri.parse entry.pattern with
  | some name =>
    simp only [parsed] at describes ⊢
    obtain ⟨probed, found, rfl⟩ := Option.map_eq_some_iff.mp describes
    exact ⟨name, probed, rfl, found, rfl⟩
  | none =>
    simp only [parsed] at describes ⊢
    cases read : UriTemplate.parse entry.pattern with
    | error _ =>
      simp only [read] at describes
      cases describes
    | ok template =>
      simp only [read] at describes ⊢
      split at describes
      · cases describes
      · rename_i vars
        rw [if_neg vars]
        split at describes
        · cases describes
        · rename_i probed hit
          obtain ⟨name, named, found⟩ := Option.bind_eq_some_iff.mp hit
          split at describes
          · cases describes
          · cases describes
            exact ⟨name, probed, named, found, rfl⟩

/-- Entries are described alike through probes that agree on the probed name. -/
theorem describe_entry_congr (probe other : Iri → Option Probed) (entry : SpaceEntry)
    (agree : ∀ name, probedName entry.pattern = some name → other name = probe name) :
    describeEntry other entry = describeEntry probe entry := by
  unfold probedName at agree
  unfold describeEntry
  cases parsed : Iri.parse entry.pattern with
  | some name =>
    simp only [parsed] at agree ⊢
    rw [agree name rfl]
  | none =>
    simp only [parsed] at agree ⊢
    cases read : UriTemplate.parse entry.pattern with
    | error _ => rfl
    | ok template =>
      simp only [read] at agree ⊢
      split
      · rfl
      · rename_i vars
        rw [if_neg vars] at agree
        have same : (probeName template).bind other = (probeName template).bind probe := by
          cases named : probeName template with
          | none => rfl
          | some name => exact agree name named
        rw [same]

namespace DescribedSpace.Without

variable {space other : DescribedSpace} {names : Iri → Prop} {id : Text} {verb : Verb}
  {capability : Capability}

/-- A row of the door is not shown. -/
theorem row_hidden (without : space.Without other names id verb capability) (entry : SpaceEntry)
    (name : Iri) (probed : probedName entry.pattern = some name) (own : names name)
    (described : EntryDescription) (describes : describeEntry space.probe entry = some described) :
    shown capability verb described.description = false := by
  obtain ⟨name', found, probed', hit, description⟩ :=
    describe_entry_probed space.probe entry described describes
  rw [probed] at probed'
  cases probed'
  rw [description]
  exact without.hidden name own found hit

/-- The doors with the id that are shown are the same. -/
theorem shown_for_id (without : space.Without other names id verb capability) :
    (other.descriptionsForId id).filter (fun door => shown capability verb door.2) =
      (space.descriptionsForId id).filter fun door => shown capability verb door.2 := by
  obtain ⟨keep, rows, dropped⟩ := without.rows
  unfold DescribedSpace.descriptionsForId
  rw [rows, List.filterMap_filter, List.filter_filterMap, List.filter_filterMap]
  refine List.filterMap_congr fun entry listed => ?_
  -- a row whose probed name is the door's is hidden here, and reaches nothing there
  have own : ∀ name, probedName entry.pattern = some name → names name →
      ((describeEntry space.probe entry).bind fun described =>
        if described.description.id = id then some (entry.pattern, described.description)
          else none).filter (fun door => shown capability verb door.2) = none := by
    intro name probed own
    cases describes : describeEntry space.probe entry with
    | none => rfl
    | some described =>
      have hidden := without.row_hidden entry name probed own described describes
      rw [Option.bind_some]
      split
      · rw [Option.filter_some, if_neg (by rw [hidden]; exact Bool.false_ne_true)]
      · rfl
  cases kept : keep entry with
  | false =>
    obtain ⟨name, probed, inside⟩ := dropped entry listed kept
    rw [own name probed inside]
    rfl
  | true =>
    rw [if_pos rfl]
    cases probed : probedName entry.pattern with
    | none =>
      rw [describe_entry_congr space.probe other.probe entry fun name found => by
        rw [probed] at found; cases found]
    | some name =>
      by_cases inside : names name
      · rw [own name probed inside, describe_entry_none other.probe entry name probed
          (without.gone name inside)]
        rfl
      · rcases without.same name inside with agree | apart
        · rw [describe_entry_congr space.probe other.probe entry fun name' found => by
            rw [probed] at found; cases found; exact agree]
        · have other_id : ∀ probe, (probe = space.probe ∨ probe = other.probe) →
              ((describeEntry probe entry).bind fun described =>
                if described.description.id = id then some (entry.pattern, described.description)
                  else none) = none := by
            intro probe which
            cases describes : describeEntry probe entry with
            | none => rfl
            | some described =>
              obtain ⟨name', found, probed', hit, description⟩ :=
                describe_entry_probed probe entry described describes
              rw [probed] at probed'
              cases probed'
              have unlike : found.description.id ≠ id := by
                rcases which with rfl | rfl
                · exact apart found (.inl hit)
                · exact apart found (.inr hit)
              rw [Option.bind_some, description, if_neg unlike]
          rw [other_id other.probe (.inr rfl), other_id space.probe (.inl rfl)]

/-- A pattern that is probed with a name of the door is no door's, to the caller or without it. -/
theorem pattern_gone (without : space.Without other names id verb capability) (pattern : Text)
    (name : Iri) (probed : probedName pattern = some name) (own : names name) :
    (space.describePattern pattern).filter (shown capability verb) = none ∧
      other.describePattern pattern = none := by
  have entries : ∀ entry : SpaceEntry, entry.pattern = pattern →
      ((describeEntry space.probe entry).map EntryDescription.description).filter
        (shown capability verb) = none ∧ describeEntry other.probe entry = none := by
    rintro entry rfl
    refine ⟨?_, describe_entry_none other.probe entry name probed (without.gone name own)⟩
    cases describes : describeEntry space.probe entry with
    | none => rfl
    | some described =>
      have hidden := without.row_hidden entry name probed own described describes
      rw [Option.map_some, Option.filter_some, if_neg (by rw [hidden]; exact Bool.false_ne_true)]
  unfold DescribedSpace.describePattern
  cases parsed : Iri.parse pattern with
  | some own' =>
    unfold probedName at probed
    rw [parsed] at probed
    cases probed
    change ((space.probe name).map Probed.description).filter (shown capability verb) = none ∧
      (other.probe name).map Probed.description = none
    refine ⟨?_, by rw [without.gone name own]; rfl⟩
    cases hit : space.probe name with
    | none => rfl
    | some found =>
      rw [Option.map_some, Option.filter_some,
        if_neg (by rw [without.hidden name own found hit]; exact Bool.false_ne_true)]
  | none =>
    constructor
    · cases search : space.entries.find? fun entry => entry.pattern = pattern with
      | none => rfl
      | some entry => exact (entries entry (by simpa using List.find?_some search)).1
    · cases search : other.entries.find? fun entry => entry.pattern = pattern with
      | none => rfl
      | some entry =>
        have none := (entries entry (by simpa using List.find?_some search)).2
        simp only [Option.bind_some, none, Option.map_none]

end DescribedSpace.Without

variable [ContentHash]

/-- Two spaces in which the named action has one target validate the request alike. -/
theorem validated_action_congr (space other : DescribedSpace) (probe probe' : Iri → Option Probed)
    (capability : Capability) (request : Request) (action : Text)
    (asked : givenArg request "action" = some action)
    (target : validateTarget other capability action = validateTarget space capability action) :
    validated other probe' capability request = validated space probe capability request := by
  unfold validated
  rw [asked]
  cases givenArg request "endpoint" with
  | none => exact target
  | some _ => rfl

/-- However a hidden door and verb are asked for, the answer is the one for a door that is bound
nowhere. -/
theorem validate_without (space other : DescribedSpace) (probe probe' : Iri → Option Probed)
    (names : Iri → Prop) (id : Text) (verb : Verb) (capability : Capability)
    (without : space.Without other names id verb capability)
    (chain : Removed probe probe' names verb capability) (request : Request)
    (asks : AsksFor names id verb request) :
    validate other probe' capability request = validate space probe capability request := by
  have same : validated other probe' capability request =
      validated space probe capability request := by
    cases asks with
    | door action pattern name asked parsed probed own =>
      obtain ⟨here, there⟩ := without.pattern_gone pattern name probed own
      have target : validateTarget other capability action =
          validateTarget space capability action := by
        simp only [validateTarget, parsed, matchTarget, here, there, Option.filter_none]
      exact validated_action_congr space other probe probe' capability request action asked target
    | contract action digest asked unmatched parsed =>
      have target : validateTarget other capability action =
          validateTarget space capability action := by
        have doors : ((other.descriptionsForId id).map Prod.snd).filter (shown capability verb) =
            ((space.descriptionsForId id).map Prod.snd).filter (shown capability verb) := by
          rw [List.filter_map, List.filter_map]
          exact congrArg (List.map Prod.snd) without.shown_for_id
        simp only [validateTarget, unmatched, parsed, contractTarget, doors]
      exact validated_action_congr space other probe probe' capability request action asked target
    | endpoint action asked unmatched unmatched' parsed =>
      have target : validateTarget other capability action =
          validateTarget space capability action := by
        simp only [validateTarget, unmatched, unmatched', parsed, endpointTarget,
          without.shown_for_id]
      exact validated_action_congr space other probe probe' capability request action asked target
    | name endpoint verbName name unnamed asked verbAsked parsedVerb parsed own =>
      have named : namedTarget probe' capability request endpoint =
          namedTarget probe capability request endpoint := by
        simp only [namedTarget, verbAsked, parsed, chain.gone name own]
        cases hit : probe name with
        | none => rfl
        | some probed =>
          simp only [parsedVerb, Except.toOption, Option.getD_some, chain.hidden name own probed hit]
          rfl
      unfold validated
      rw [unnamed, asked]
      exact named
  rw [validate, validate, same]

/-- What is offered is read back exactly when its pattern leads back, and a hidden door is
answered as one that is bound nowhere. -/
theorem offers_are_read_back (space : DescribedSpace) (probe : Iri → Option Probed)
    (capability : Capability) :
    (∀ query found, query.capability = some capability →
      found ∈ (selectActionsBounded space.entries space.probe query).1 →
        (ReadBack space probe capability found ↔ space.LeadsBack found.endpoint)) ∧
    ∀ other probe' names id verb, space.Without other names id verb capability →
      Removed probe probe' names verb capability → ∀ request, AsksFor names id verb request →
        validate other probe' capability request = validate space probe capability request :=
  ⟨fun query found asked offered => read_back_iff space probe capability query asked found offered,
    fun other probe' names id verb without chain request asks =>
      validate_without space other probe probe' names id verb capability without chain request asks⟩

end Hidden

namespace TwiceBound

local instance exactIri : IriSyntax := ⟨Rfc3987.isIri, fun _ => []⟩

local instance zeroHash : ContentHash := ⟨fun _ => Vector.replicate 32 0⟩

def name : Text := ['u', 'r', 'n', ':', 'x', ':', 'p', 'r', 'o', 'b', 'e']

def pattern : Text := ['u', 'r', 'n', ':', 'x', ':', '{', 'n', '}']

def input : ArgSpec := { name := ['n'], source := .binding }

def first : Description := { id := ['A'], verbs := [.source], inputs := [input] }

def second : Description := { id := ['B'], verbs := [.source], inputs := [input] }

/-- A name bound exactly to `B`, then a template bound to `A`, then the same template bound
to `B`. -/
def space : DescribedSpace where
  entries := [⟨name, ['B']⟩, ⟨pattern, ['A']⟩, ⟨pattern, ['B']⟩]
  probe asked :=
    if asked = name then some ⟨['B'], second⟩
    else
      match UriTemplate.parse pattern with
      | .error _ => none
      | .ok template => (template.matchIri asked).map fun _ => ⟨['A'], first⟩

def query : ActionQuery := { capability := some .root }

def found : ActionMatch :=
  actionMatch query pattern ⟨second, some [['n']]⟩ (second.flatAction .source)

/-- The example's first row describes nothing. -/
theorem first_row_differs : describeEntry space.probe ⟨pattern, ['A']⟩ = none := by decide

/-- The example's second row describes another action. -/
theorem second_row_describes :
    describeEntry space.probe ⟨pattern, ['B']⟩ = some ⟨second, some [['n']]⟩ := by decide

/-- The door found is among those offered for the query. -/
theorem found_is_offered : found ∈ (selectActionsBounded space.entries space.probe query).1 := by
  refine (selected_iff space.entries space.probe query found).mpr ⟨?_, .inl rfl⟩
  exact ⟨⟨pattern, ['B']⟩, ⟨second, some [['n']]⟩, second.flatAction .source, {
    listed := List.mem_cons_of_mem _ (List.mem_cons_of_mem _ List.mem_cons_self)
    describes := second_row_describes
    declared := List.mem_singleton_self _
    admitted := by decide
    found := rfl }⟩

/-- The second row of the pattern is offered, and its match is not read back: the first is asked. -/
theorem offer_is_not_read_back :
    ∃ found ∈ (selectActionsBounded space.entries space.probe query).1,
      ¬ReadBack space space.probe .root found := by
  refine ⟨found, found_is_offered, fun back => ?_⟩
  have leads := (read_back_iff space space.probe .root query rfl found found_is_offered).mp back
  rcases leads with valid | ⟨entry, asked, describes⟩
  · exact absurd valid (by decide)
  · have row : entry = ⟨pattern, ['A']⟩ := by
      have firstRow : space.entries.find? (fun entry => entry.pattern = found.endpoint) =
          some ⟨pattern, ['A']⟩ := by decide
      exact Option.some.inj (asked.symm.trans firstRow)
    rw [row, first_row_differs] at describes
    cases describes

def door : ActionMatch := actionMatch query name ⟨second, none⟩ (second.flatAction .source)

/-- So is the second door. -/
theorem door_is_offered : door ∈ (selectActionsBounded space.entries space.probe query).1 := by
  refine (selected_iff space.entries space.probe query door).mpr ⟨?_, .inl rfl⟩
  exact ⟨⟨name, ['B']⟩, ⟨second, none⟩, second.flatAction .source, {
    listed := List.mem_cons_self
    describes := by decide
    declared := List.mem_singleton_self _
    admitted := by decide
    found := rfl }⟩

def secret : Description :=
  { id := ['S'], verbs := [.source], «requires» := [name], existenceSensitive := true }

def hidden : DescribedSpace where
  entries := [⟨name, ['S']⟩]
  probe asked := if asked = name then some ⟨['S'], secret⟩ else none

def bare : DescribedSpace where
  entries := []
  probe _ := none

def nothing : Capability := .scoped ⟨[], .nil⟩

def verbNamed : Text := ['s', 'o', 'u', 'r', 'c', 'e']

def request : Request :=
  ⟨.source, [], [("endpoint".toList, .inline name.asBytes),
    ("verb".toList, .inline verbNamed.asBytes)]⟩

/-- The name's own match is read back, and a hidden name is answered as one that is not bound. -/
theorem name_is_read_back :
    ReadBack space space.probe .root door ∧
      validate bare bare.probe nothing request =
        validate hidden hidden.probe nothing request := by
  have isHidden : shown nothing .source secret = false := by decide
  have removed : Removed hidden.probe bare.probe (· = name) .source nothing :=
    { hidden := fun asked own probed hit => by
        subst own
        cases hit
        exact isHidden
      gone := fun _ _ => rfl }
  refine ⟨((offers_are_read_back space space.probe .root).1 query door rfl door_is_offered).mpr
      (.inl (by decide)),
    (offers_are_read_back hidden hidden.probe nothing).2 bare bare.probe (· = name) ['S']
      .source ?_ removed request ?_⟩
  · exact {
      removed with
      same := fun asked other => .inl (by
        change none = if asked = name then _ else none
        rw [if_neg other])
      rows := ⟨fun _ => false, rfl, fun entry listed _ => ⟨name, by
        rw [List.mem_singleton.mp listed]
        decide, rfl⟩⟩ }
  · exact .name name verbNamed name rfl
      (by decide) (by decide) (by decide) (by decide) rfl

end TwiceBound

end Ikigai
