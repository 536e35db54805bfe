import Ikigai.Check
import Ikigai.UriTemplate

/-!
# Selection

A need matched against the contracts a space's doors describe. One walk over the entries
of a space keeps the actions a query admits: the caller's capability first, then the verb,
the wanted type and the classes that are present. A door is described through one probe of
its name; a template is probed with a placeholder for each variable, and such a hit counts
only when the endpoint or its description is the one the entry names.
-/

namespace Ikigai

namespace MediaType

def lower (text : Text) : Text := text.map Char.toLower

/-- The type and subtype alone. -/
def essence (mediaType : Text) : Text :=
  lower (Text.trim ((mediaType.splitOn ';').headD []))

/-- A value without the quotes around it. -/
def unquoted (value : Text) : Text :=
  ((Text.stripPrefix value ['"']).bind fun value => Text.stripSuffix value '"').getD value

def parameter (text : Text) : Option (Text × Text) :=
  match Text.splitOnce text '=' with
  | (_, none) => none
  | (name, some value) =>
    let name := lower (Text.trim name)
    let value := unquoted (Text.trim value)
    some (name, if name = "charset".toList then lower value else value)

def parameters (mediaType : Text) : List (Text × Text) :=
  ((mediaType.splitOn ';').drop 1).filterMap parameter

/-- Whether the second, with what parameters it states, allows the first. -/
def agree (declared wanted : Text) : Bool :=
  decide (essence declared = essence wanted) && (parameters wanted).all fun asked =>
    ((parameters declared).find? fun stated => stated.1 = asked.1).all fun stated =>
      stated.2 = asked.2

end MediaType

/-- A row of a space's enumeration: a pattern, and the name of the endpoint it binds. -/
structure SpaceEntry where
  pattern : Text
  endpoint : Text
deriving DecidableEq, Repr

/-- What a probe of a name finds: the endpoint's name and what it says of itself. -/
structure Probed where
  name : Text
  description : Description
deriving DecidableEq, Repr

/-- An entry's description, and the variables of its pattern when that is a template. -/
structure EntryDescription where
  description : Description
  templateVars : Option (List Text)
deriving DecidableEq, Repr

def probePlaceholder : Text := "probe".toList

section Walk

variable [IriSyntax]

/-- A template's name with the placeholder for each variable. -/
def probeName (template : UriTemplate) : Option Iri :=
  (template.expand (template.variableNames.map fun name => (name, probePlaceholder))).bind Iri.parse

/-- Describe one entry of a space that is probed by name. -/
def describeEntry (probe : Iri → Option Probed) (entry : SpaceEntry) : Option EntryDescription :=
  match Iri.parse entry.pattern with
  | some name => (probe name).map fun probed => ⟨probed.description, none⟩
  | none =>
    match UriTemplate.parse entry.pattern with
    | .error _ => none
    | .ok template =>
      if template.variableNames.isEmpty then none
      else
        match (probeName template).bind probe with
        | none => none
        | some probed =>
          if probed.name ≠ entry.endpoint ∧ probed.description.id ≠ entry.endpoint then none
          else some ⟨probed.description, some template.variableNames⟩

/-- A pattern that an entry is described by is an IRI, or a template whose placeholder name
is one. -/
theorem described_pattern (probe : Iri → Option Probed) (entry : SpaceEntry)
    (described : EntryDescription) (found : describeEntry probe entry = some described) :
    IriSyntax.isIri entry.pattern = true ∨ ∃ template name,
      UriTemplate.parse entry.pattern = .ok template ∧ probeName template = some name := by
  unfold describeEntry at found
  split at found
  · rename_i name parsed
    rw [Iri.parse] at parsed
    split at parsed
    · exact .inl ‹_›
    · cases parsed
  · split at found
    · cases found
    · rename_i template parsed
      split at found
      · cases found
      · split at found
        · cases found
        · rename_i probed hit
          obtain ⟨name, named, _⟩ := Option.bind_eq_some_iff.mp hit
          exact .inr ⟨template, name, parsed, named⟩

/-- One pattern is described in one way. -/
theorem describe_entry_same (probe : Iri → Option Probed) (entry other : SpaceEntry)
    (described described' : EntryDescription) (same : other.pattern = entry.pattern)
    (describes : describeEntry probe entry = some described)
    (describes' : describeEntry probe other = some described') : described' = described := by
  unfold describeEntry at describes describes'
  rw [same] at describes'
  cases parsed : Iri.parse entry.pattern with
  | some name =>
    simp only [parsed] at describes describes'
    exact Option.some.inj (describes'.symm.trans describes)
  | none =>
    simp only [parsed] at describes describes'
    cases read : UriTemplate.parse entry.pattern with
    | error refusal =>
      simp only [read] at describes
      cases describes
    | ok template =>
      simp only [read] at describes describes'
      split at describes
      · cases describes
      · rename_i vars
        rw [if_neg vars] at describes'
        cases hit : (probeName template).bind probe with
        | none =>
          simp only [hit] at describes
          cases describes
        | some probed =>
          simp only [hit] at describes describes'
          split at describes
          · cases describes
          · split at describes'
            · cases describes'
            · exact Option.some.inj (describes'.symm.trans describes)

/-- Every variable is an input that is bound from the name. -/
def templateDrivable (action : ActionSpec) (vars : List Text) : Bool :=
  vars.all fun var => action.inputs.any fun input =>
    decide (input.name = var) && decide (input.source = .binding)

/-- Whether a group asks for a member at all. -/
def InputGroup.isRequired (group : InputGroup) : Bool :=
  group.kind = .exactlyOne || group.kind = .atLeastOne

def classPresent (present : List Text) (input : ArgSpec) : Bool :=
  input.class.any fun declared => declared ∈ present

/-- Every required input, and a member of every required group, is of a class that is
present, and there is one; or there is no input at all. -/
def specSatisfiable (action : ActionSpec) (present : List Text) : Bool :=
  action.inputs.isEmpty ||
    let required := action.inputs.filter ArgSpec.required
    let groups := action.groups.filter InputGroup.isRequired
    required.all (classPresent present) &&
      (groups.all fun group => group.members.any fun member =>
        action.inputs.any fun input => decide (input.name = member) && classPresent present input) &&
      !(required.isEmpty && groups.isEmpty)

/-- Whether an input accepts no value. -/
def ArgSpec.acceptsNothing (input : ArgSpec) : Bool := input.isEnumerated && input.oneOf.isEmpty

/-- Whether any call could satisfy the contract. -/
def callable (action : ActionSpec) : Bool :=
  !(action.inputs.any fun input =>
      input.required && decide (input.source = .argument) && input.acceptsNothing) &&
    !(action.groups.any fun group => group.isRequired && group.members.all fun member =>
      (action.inputs.find? fun input => input.name = member).any ArgSpec.acceptsNothing)

/-- One door and verb that a query admits. -/
structure ActionMatch where
  endpoint : Text
  id : Text
  verb : Verb
  action : Text
  «requires» : List Text
  missingOptional : Nat
deriving DecidableEq, Repr

/-- The match's own IRI. -/
def ActionMatch.matchIri (found : ActionMatch) : Text := Ikigai.matchIri found.verb found.endpoint

structure ActionQuery where
  present : List Text := []
  verb : Option Verb := none
  want : Option Text := none
  capability : Option Capability := none

/-- What the filters let through, for a door with these variables. -/
def ActionQuery.admits (query : ActionQuery) (vars : Option (List Text)) (action : ActionSpec) :
    Bool :=
  vars.all (templateDrivable action) && query.verb.all (fun verb => action.verb = verb) &&
    query.want.all (fun want => action.outputs.any fun output => MediaType.agree output want) &&
    query.capability.all (fun capability =>
      action.requires.all fun scope => capability.satisfies scope) &&
    (query.present.isEmpty || specSatisfiable action query.present) && callable action

/-- How many optional inputs have a class that is not present. -/
def missingOptional (action : ActionSpec) (present : List Text) : Nat :=
  ((action.inputs.filter fun input => !input.required).filter fun input =>
    input.class.any fun declared => declared ∉ present).length

variable [ContentHash]

/-- An action of a described entry, as a match. -/
def actionMatch (query : ActionQuery) (pattern : Text) (described : EntryDescription)
    (action : ActionSpec) : ActionMatch where
  endpoint := pattern
  id := described.description.id
  verb := action.verb
  action := action.contractIri described.description.id
  «requires» := action.requires
  missingOptional := missingOptional action query.present

/-- The tightest bound on what was read, the matches (each with whether it needs nothing),
and the doors and verbs that have one. -/
structure SelectionWalk where
  caching : ContractCaching := .untilRebind
  found : List (Bool × ActionMatch) := []
  seen : List (Text × Verb) := []

/-- One action of a described entry. -/
def SelectionWalk.offer (query : ActionQuery) (pattern : Text) (described : EntryDescription)
    (walk : SelectionWalk) (action : ActionSpec) : SelectionWalk :=
  if query.admits described.templateVars action then
    if (pattern, action.verb) ∈ walk.seen then walk
    else
      { walk with
        seen := (pattern, action.verb) :: walk.seen
        found := walk.found ++
          [(!query.present.isEmpty && action.inputs.isEmpty,
            actionMatch query pattern described action)] }
  else walk

/-- One entry. -/
def SelectionWalk.visit (probe : Iri → Option Probed) (query : ActionQuery)
    (walk : SelectionWalk) (entry : SpaceEntry) : SelectionWalk :=
  match describeEntry probe entry with
  | none => walk
  | some described =>
    described.description.actionSpecs.foldl (SelectionWalk.offer query entry.pattern described)
      { walk with caching := walk.caching.mostRestrictive described.description.contractCaching }

/-- The rank of a verb, as the source numbers them. -/
def verbRank : Verb → Nat
  | .source => 1
  | .sink => 2
  | .exists => 3
  | .delete => 4
  | .«meta» => 5

/-- What fits best first: what needs nothing last, then by the inputs that are missing, the
pattern and the verb. -/
def matchLe (left right : Bool × ActionMatch) : Bool :=
  ((compare left.1 right.1).then <|
    (compare left.2.missingOptional right.2.missingOptional).then <|
    (compare left.2.endpoint right.2.endpoint).then <|
    compare (verbRank left.2.verb) (verbRank right.2.verb)) != .gt

/-- The matches of a query, and the bound on keeping them. -/
def selectActionsBounded (entries : List SpaceEntry) (probe : Iri → Option Probed)
    (query : ActionQuery) : List ActionMatch × ContractCaching :=
  let walk := entries.foldl (SelectionWalk.visit probe query) {}
  let found := if walk.found.all Prod.fst then [] else walk.found
  ((found.mergeSort matchLe).map Prod.snd, walk.caching)

/-- A match of an entry's own description that the query admits. -/
structure Offered (entries : List SpaceEntry) (probe : Iri → Option Probed) (query : ActionQuery)
    (found : ActionMatch) (entry : SpaceEntry) (described : EntryDescription)
    (action : ActionSpec) : Prop where
  listed : entry ∈ entries
  describes : describeEntry probe entry = some described
  declared : action ∈ described.description.actionSpecs
  admitted : query.admits described.templateVars action = true
  found : found = actionMatch query entry.pattern described action

theorem offer_found (query : ActionQuery) (pattern : Text) (described : EntryDescription)
    (walk : SelectionWalk) (action : ActionSpec) (found : Bool × ActionMatch)
    (member : found ∈ (walk.offer query pattern described action).found) :
    found ∈ walk.found ∨ query.admits described.templateVars action = true ∧
      found = (!query.present.isEmpty && action.inputs.isEmpty,
        actionMatch query pattern described action) := by
  unfold SelectionWalk.offer at member
  split at member
  · rename_i admitted
    split at member
    · exact .inl member
    · rcases List.mem_append.mp member with kept | new
      · exact .inl kept
      · exact .inr ⟨admitted, List.mem_singleton.mp new⟩
  · exact .inl member

theorem offers_found (query : ActionQuery) (pattern : Text) (described : EntryDescription)
    (actions : List ActionSpec) (walk : SelectionWalk) (found : Bool × ActionMatch)
    (member : found ∈ (actions.foldl (SelectionWalk.offer query pattern described) walk).found) :
    found ∈ walk.found ∨ ∃ action ∈ actions,
      query.admits described.templateVars action = true ∧
        found = (!query.present.isEmpty && action.inputs.isEmpty,
          actionMatch query pattern described action) := by
  induction actions generalizing walk with
  | nil => exact .inl member
  | cons action actions ih =>
    rcases ih (walk.offer query pattern described action) member with kept | ⟨other, inside, new⟩
    · rcases offer_found query pattern described walk action found kept with kept | new
      · exact .inl kept
      · exact .inr ⟨action, List.mem_cons_self, new⟩
    · exact .inr ⟨other, List.mem_cons_of_mem _ inside, new⟩

theorem visits_found (probe : Iri → Option Probed) (query : ActionQuery)
    (entries : List SpaceEntry) (walk : SelectionWalk) (found : Bool × ActionMatch)
    (member : found ∈ (entries.foldl (SelectionWalk.visit probe query) walk).found) :
    found ∈ walk.found ∨ ∃ entry described action,
      Offered entries probe query found.2 entry described action ∧
        found.1 = (!query.present.isEmpty && action.inputs.isEmpty) := by
  induction entries generalizing walk with
  | nil => exact .inl member
  | cons entry entries ih =>
    rcases ih (walk.visit probe query entry) member with
      kept | ⟨other, described, action, new, marked⟩
    · unfold SelectionWalk.visit at kept
      split at kept
      · exact .inl kept
      · rename_i described described_
        rcases offers_found query _ described _ _ found kept with kept | ⟨action, inside, new⟩
        · exact .inl kept
        · obtain ⟨admitted, rfl⟩ := new
          exact .inr ⟨entry, described, action,
            ⟨List.mem_cons_self, described_, inside, admitted, rfl⟩, rfl⟩
    · exact .inr ⟨other, described, action, ⟨List.mem_cons_of_mem _ new.listed, new.describes,
        new.declared, new.admitted, new.found⟩, marked⟩

/-- Every match is of an entry's own description, and the query admits it. -/
theorem offered_of_selected (entries : List SpaceEntry) (probe : Iri → Option Probed)
    (query : ActionQuery) (found : ActionMatch)
    (member : found ∈ (selectActionsBounded entries probe query).1) :
    ∃ entry described action, Offered entries probe query found entry described action := by
  obtain ⟨marked, sorted, rfl⟩ := List.mem_map.mp member
  have listed := List.mem_mergeSort.mp sorted
  split at listed
  · cases listed
  · rcases visits_found probe query entries {} marked listed with
      none | ⟨entry, described, action, new, _⟩
    · cases none
    · exact ⟨entry, described, action, new⟩

/-- A door and verb that a match was found for. -/
def SelectionWalk.Covers (walk : SelectionWalk) (key : Text × Verb) : Prop :=
  ∃ found ∈ walk.found, (found.2.endpoint, found.2.verb) = key

/-- Every door and verb that was seen has its match. -/
def SelectionWalk.Kept (walk : SelectionWalk) : Prop := ∀ key ∈ walk.seen, walk.Covers key

/-- A later walk, with all that was covered. -/
structure SelectionWalk.Extended (walk later : SelectionWalk) : Prop where
  kept : later.Kept
  covers : ∀ key, walk.Covers key → later.Covers key

theorem offer_covers (query : ActionQuery) (pattern : Text) (described : EntryDescription)
    {walk : SelectionWalk} (kept : walk.Kept) (action : ActionSpec) :
    walk.Extended (walk.offer query pattern described action) ∧
      (query.admits described.templateVars action = true →
        (walk.offer query pattern described action).Covers (pattern, action.verb)) := by
  unfold SelectionWalk.offer
  split
  · split
    · rename_i known
      exact ⟨⟨kept, fun _ covers => covers⟩, fun _ => kept _ known⟩
    · refine ⟨⟨?_, ?_⟩, fun _ => ⟨_, List.mem_append_right _ List.mem_cons_self, rfl⟩⟩
      · intro key seen
        rcases List.mem_cons.mp seen with rfl | before
        · exact ⟨_, List.mem_append_right _ List.mem_cons_self, rfl⟩
        · obtain ⟨found, inside, same⟩ := kept key before
          exact ⟨found, List.mem_append_left _ inside, same⟩
      · rintro key ⟨found, inside, same⟩
        exact ⟨found, List.mem_append_left _ inside, same⟩
  · rename_i refused
    exact ⟨⟨kept, fun _ covers => covers⟩, fun admitted => absurd admitted refused⟩

theorem offers_cover (query : ActionQuery) (pattern : Text) (described : EntryDescription)
    (actions : List ActionSpec) {walk : SelectionWalk} (kept : walk.Kept) :
    walk.Extended (actions.foldl (SelectionWalk.offer query pattern described) walk) ∧
      ∀ action ∈ actions, query.admits described.templateVars action = true →
        (actions.foldl (SelectionWalk.offer query pattern described) walk).Covers
          (pattern, action.verb) := by
  induction actions generalizing walk with
  | nil => exact ⟨⟨kept, fun _ covers => covers⟩, nofun⟩
  | cons action actions ih =>
    obtain ⟨first, own⟩ := offer_covers query pattern described kept action
    obtain ⟨rest, others⟩ := ih first.kept
    refine ⟨⟨rest.kept, fun key covers => rest.covers key (first.covers key covers)⟩, ?_⟩
    intro other inside admitted
    rcases List.mem_cons.mp inside with rfl | inside
    · exact rest.covers _ (own admitted)
    · exact others other inside admitted

theorem visit_covers (probe : Iri → Option Probed) (query : ActionQuery) (entry : SpaceEntry)
    {walk : SelectionWalk} (kept : walk.Kept) :
    walk.Extended (walk.visit probe query entry) ∧
      ∀ described, describeEntry probe entry = some described →
        ∀ action ∈ described.description.actionSpecs,
          query.admits described.templateVars action = true →
            (walk.visit probe query entry).Covers (entry.pattern, action.verb) := by
  unfold SelectionWalk.visit
  split
  · rename_i undescribed
    refine ⟨⟨kept, fun _ covers => covers⟩, fun described describes => ?_⟩
    rw [undescribed] at describes
    cases describes
  · rename_i described describes
    have kept' : SelectionWalk.Kept { walk with
        caching := walk.caching.mostRestrictive described.description.contractCaching } := kept
    obtain ⟨extended, own⟩ := offers_cover query entry.pattern described
      described.description.actionSpecs kept'
    refine ⟨⟨extended.kept, extended.covers⟩, fun other describes' => ?_⟩
    rw [describes] at describes'
    cases describes'
    exact own

/-- Every action that is admitted leaves a match for its door and verb. -/
theorem visits_cover (probe : Iri → Option Probed) (query : ActionQuery)
    (entries : List SpaceEntry) {walk : SelectionWalk} (kept : walk.Kept) :
    walk.Extended (entries.foldl (SelectionWalk.visit probe query) walk) ∧
      ∀ found entry described action, Offered entries probe query found entry described action →
        (entries.foldl (SelectionWalk.visit probe query) walk).Covers
          (entry.pattern, action.verb) := by
  induction entries generalizing walk with
  | nil =>
    refine ⟨⟨kept, fun _ covers => covers⟩, fun _ _ _ _ offered => ?_⟩
    cases offered.listed
  | cons entry entries ih =>
    obtain ⟨first, own⟩ := visit_covers probe query entry kept
    obtain ⟨rest, others⟩ := ih first.kept
    refine ⟨⟨rest.kept, fun key covers => rest.covers key (first.covers key covers)⟩, ?_⟩
    intro found other described action offered
    rcases List.mem_cons.mp offered.listed with rfl | inside
    · exact rest.covers _ (own described offered.describes action offered.declared offered.admitted)
    · exact others found other described action
        ⟨inside, offered.describes, offered.declared, offered.admitted, offered.found⟩

/-- What is found for an admitted action's door and verb is that action's own match. -/
theorem covered_own (probe : Iri → Option Probed) (query : ActionQuery)
    (entries : List SpaceEntry) (found : ActionMatch) (entry : SpaceEntry)
    (described : EntryDescription) (action : ActionSpec)
    (offered : Offered entries probe query found entry described action) :
    (!query.present.isEmpty && action.inputs.isEmpty, found) ∈
      (entries.foldl (SelectionWalk.visit probe query) {}).found := by
  have empty : SelectionWalk.Kept {} := nofun
  obtain ⟨held, inside, same⟩ := (visits_cover probe query entries empty).2 found entry described
    action offered
  rcases visits_found probe query entries {} held inside with
    none | ⟨other, described', action', new, marked⟩
  · cases none
  · have heldIs := new.found
    rw [heldIs] at same
    obtain ⟨pattern, verb⟩ := Prod.mk.inj same
    have one := describe_entry_same probe entry other described described' pattern
      offered.describes new.describes
    subst one
    have actionIs := described'.description.action_specs_agree action' action new.declared
      offered.declared verb
    subst actionIs
    have heldEq : held = (!query.present.isEmpty && action'.inputs.isEmpty, found) := by
      apply Prod.ext
      · exact marked
      · rw [heldIs, offered.found]
        exact congrArg (fun endpoint => actionMatch query endpoint described' action') pattern
    rw [← heldEq]
    exact inside

/-- A match is listed exactly when it is of an admitted action, and some admitted action has
inputs or no class was asked for. -/
theorem selected_iff (entries : List SpaceEntry) (probe : Iri → Option Probed)
    (query : ActionQuery) (found : ActionMatch) :
    found ∈ (selectActionsBounded entries probe query).1 ↔
      (∃ entry described action, Offered entries probe query found entry described action) ∧
        (query.present = [] ∨ ∃ fitted entry described action,
          Offered entries probe query fitted entry described action ∧ action.inputs ≠ []) := by
  have listed : (∃ marked, (marked, found) ∈
      (entries.foldl (SelectionWalk.visit probe query) {}).found) ↔
      ∃ entry described action, Offered entries probe query found entry described action := by
    constructor
    · rintro ⟨marked, inside⟩
      rcases visits_found probe query entries {} _ inside with
        none | ⟨entry, described, action, new, _⟩
      · cases none
      · exact ⟨entry, described, action, new⟩
    · rintro ⟨entry, described, action, offered⟩
      exact ⟨_, covered_own probe query entries found entry described action offered⟩
  have fitted : (entries.foldl (SelectionWalk.visit probe query) {}).found.all Prod.fst = false ↔
      ∃ fitted entry described action,
        Offered entries probe query fitted entry described action ∧
          (query.present = [] ∨ action.inputs ≠ []) := by
    rw [List.all_eq_false]
    constructor
    · rintro ⟨held, inside, unmarked⟩
      rcases visits_found probe query entries {} _ inside with
        none | ⟨entry, described, action, new, marked⟩
      · cases none
      · refine ⟨_, entry, described, action, new, ?_⟩
        rw [marked] at unmarked
        rw [← List.isEmpty_iff, Ne, ← List.isEmpty_iff]
        revert unmarked
        cases query.present.isEmpty <;> cases action.inputs.isEmpty <;> simp
    · rintro ⟨fitted, entry, described, action, offered, asks⟩
      refine ⟨_, covered_own probe query entries fitted entry described action offered, ?_⟩
      rw [← List.isEmpty_iff, Ne, ← List.isEmpty_iff] at asks
      revert asks
      cases query.present.isEmpty <;> cases action.inputs.isEmpty <;> simp
  have member : found ∈ (selectActionsBounded entries probe query).1 ↔
      (∃ marked, (marked, found) ∈ (entries.foldl (SelectionWalk.visit probe query) {}).found) ∧
        (entries.foldl (SelectionWalk.visit probe query) {}).found.all Prod.fst = false := by
    simp only [selectActionsBounded, List.mem_map, List.mem_mergeSort]
    split
    · rename_i all
      simp [all]
    · rename_i some
      rw [Bool.not_eq_true] at some
      constructor
      · rintro ⟨held, inside, rfl⟩
        exact ⟨⟨held.1, inside⟩, some⟩
      · rintro ⟨⟨marked, inside⟩, _⟩
        exact ⟨_, inside, rfl⟩
  rw [member, listed, fitted]
  apply and_congr_right
  rintro ⟨entry, described, action, offered⟩
  constructor
  · rintro ⟨fit, entry', described', action', offered', none | asks⟩
    · exact .inl none
    · exact .inr ⟨fit, entry', described', action', offered', asks⟩
  · rintro (none | ⟨fit, entry', described', action', offered', asks⟩)
    · exact ⟨found, entry, described, action, offered, .inl none⟩
    · exact ⟨fit, entry', described', action', offered', .inr asks⟩

end Walk

end Ikigai
