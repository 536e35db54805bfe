import Ikigai.KeyedMap
import Ikigai.Selection
import Ikigai.Worklist

/-!
# Subclass inference

A kernel may be given `rdfs:subClassOf` axioms. Their closure maps every class that is named
to itself and all it can be reached from, by one search for each class. The types that are
present are expanded through it before actions are selected, so the selection sees exactly
the classes that are reachable from a present one.
-/

namespace Ikigai

/-- A class and one it is a subclass of. -/
abbrev SubclassAxiom := Text × Text

/-- Each class with the superclasses held for it. -/
abbrev SupersMap := KeyedMap Text (OrderedSet Text)

/-- `direct.entry(sub).or_default().insert(sup)`. -/
def SupersMap.declare (direct : SupersMap) (declared : SubclassAxiom) : SupersMap :=
  direct.insert declared.1 (((direct.lookup declared.1).getD .empty).insert declared.2)

/-- The superclasses each class is declared to have. -/
def directSupers (axioms : List SubclassAxiom) : SupersMap := axioms.foldl SupersMap.declare ∅

/-- Every class that is named. -/
def namedClasses (axioms : List SubclassAxiom) : OrderedSet Text :=
  .ofList (axioms.flatMap fun declared => [declared.1, declared.2])

def parents (axioms : List SubclassAxiom) (name : Text) : List Text :=
  (((directSupers axioms).lookup name).map OrderedSet.items).getD []

/-- What is declared above a name is what was there and what the axioms add. -/
theorem mem_declared (axioms : List SubclassAxiom) (direct : SupersMap) (name other : Text) :
    other ∈ (((axioms.foldl SupersMap.declare direct).lookup name).map OrderedSet.items).getD [] ↔
      other ∈ ((direct.lookup name).map OrderedSet.items).getD [] ∨ (name, other) ∈ axioms := by
  induction axioms generalizing direct with
  | nil => simp
  | cons declared axioms ih =>
    obtain ⟨sub, sup⟩ := declared
    rw [List.foldl_cons, ih, SupersMap.declare, KeyedMap.lookup_insert_eq, List.mem_cons,
      ← or_assoc]
    apply or_congr_left
    by_cases same : name = sub
    · subst same
      cases direct.lookup name with
      | none => simp [OrderedSet.mem_items]
      | some supers => simp [OrderedSet.mem_items, or_comm]
    · simp [same]

/-- The parents of a class are those the axioms give it. -/
theorem mem_parents (axioms : List SubclassAxiom) (name other : Text) :
    other ∈ parents axioms name ↔ (name, other) ∈ axioms := by
  rw [parents, directSupers, mem_declared]
  simp

/-- A class is named where an axiom names it, on either side. -/
theorem mem_named_classes (axioms : List SubclassAxiom) (name : Text) :
    name ∈ namedClasses axioms ↔ ∃ declared ∈ axioms, name = declared.1 ∨ name = declared.2 := by
  simp [namedClasses]

/-- The classes that are named, with their parents. -/
def subclassGraph (axioms : List SubclassAxiom) : FiniteGraph Text where
  nodes := (namedClasses axioms).items
  next := parents axioms
  inside name other parent := by
    rw [OrderedSet.mem_items, mem_named_classes]
    exact ⟨(name, other), (mem_parents axioms name other).mp parent, .inr rfl⟩

/-- The closure, one search for each class. -/
def withSubclassAxioms (axioms : List SubclassAxiom) : SupersMap :=
  (namedClasses axioms).items.foldl
    (fun closure name => closure.insert name ((subclassGraph axioms).found name)) ∅

/-- The closure of a named class is all that is found from it; of any other there is none. -/
theorem lookup_closure (axioms : List SubclassAxiom) (name : Text) :
    (withSubclassAxioms axioms).lookup name =
      if name ∈ namedClasses axioms then some ((subclassGraph axioms).found name) else none := by
  rw [withSubclassAxioms, KeyedMap.lookup_inserted]
  by_cases named : name ∈ (namedClasses axioms).items
  · rw [if_pos named, if_pos ((OrderedSet.mem_items _ _).mp named)]
  · rw [if_neg named, if_neg (mt (OrderedSet.mem_items _ _).mpr named)]
    rfl

/-- Zero or more axioms, one after the other. -/
def SubclassOf (axioms : List SubclassAxiom) : Text → Text → Prop :=
  Relation.ReflTransGen fun name other => (name, other) ∈ axioms

/-- One class is reached from another exactly when the axioms make it a superclass. -/
theorem reach_iff (axioms : List SubclassAxiom) (name other : Text) :
    (subclassGraph axioms).Reach name other ↔ SubclassOf axioms name other := by
  have same : (subclassGraph axioms).Step = fun name other => (name, other) ∈ axioms := by
    funext name other
    exact propext (mem_parents axioms name other)
  rw [FiniteGraph.Reach, same, SubclassOf]

/-- The closure holds every class that is named, with all it is a subclass of. -/
theorem closure_exact (axioms : List SubclassAxiom) (name other : Text) :
    (∃ supers, (withSubclassAxioms axioms).lookup name = some supers ∧ other ∈ supers) ↔
      name ∈ namedClasses axioms ∧ SubclassOf axioms name other := by
  rw [lookup_closure]
  by_cases named : name ∈ namedClasses axioms
  · have found := (@FiniteGraph.mem_found _ _ (subclassGraph axioms) _ named other).trans
      (reach_iff axioms name other)
    simp [named, found]
  · simp [named]

/-- A class that is not named is a subclass of itself only. -/
theorem subclass_of_unnamed (axioms : List SubclassAxiom) (name other : Text)
    (unnamed : name ∉ namedClasses axioms) (sub : SubclassOf axioms name other) :
    other = name := by
  rcases Relation.ReflTransGen.cases_head sub with same | ⟨next, step, _⟩
  · exact same.symm
  · exact absurd ((mem_named_classes axioms name).mpr ⟨_, step, .inl rfl⟩) unnamed

/-- More axioms take no superclass away. -/
theorem SubclassOf.mono {axioms more : List SubclassAxiom} (kept : axioms ⊆ more)
    {name other : Text} (sub : SubclassOf axioms name other) : SubclassOf more name other :=
  Relation.ReflTransGen.mono (fun _ _ declared => kept declared) _ _ sub

/-- A type's superclasses, or just itself. -/
def SupersMap.supers (closure : SupersMap) (name : Text) : List Text :=
  ((closure.lookup name).map OrderedSet.items).getD [name]

/-- Each type itself and its superclasses; an unknown type is just itself. -/
def expandPresent (closure : SupersMap) (present : List Text) : List Text :=
  if closure.entries.isEmpty then present
  else
    (present.foldl (fun (expanded : OrderedSet Text) name =>
      expanded.extend (closure.supers name)) .empty).items

/-- What is expanded is what is present and all above it. -/
theorem mem_expanded (closure : SupersMap) (present : List Text) (expanded : OrderedSet Text)
    (other : Text) :
    other ∈ present.foldl (fun (expanded : OrderedSet Text) name =>
        expanded.extend (closure.supers name)) expanded ↔
      other ∈ expanded ∨ ∃ name ∈ present, other ∈ closure.supers name := by
  induction present generalizing expanded with
  | nil => simp
  | cons name present ih =>
    rw [List.foldl_cons, ih]
    simp [or_assoc]

/-- What a type is expanded to is what it is a subclass of. -/
theorem mem_supers (axioms : List SubclassAxiom) (name other : Text) :
    other ∈ (withSubclassAxioms axioms).supers name ↔ SubclassOf axioms name other := by
  rw [SupersMap.supers, lookup_closure]
  by_cases named : name ∈ namedClasses axioms
  · rw [if_pos named]
    exact (@FiniteGraph.mem_found _ _ (subclassGraph axioms) _ named other).trans
      (reach_iff axioms name other)
  · rw [if_neg named]
    constructor
    · intro only
      rw [List.mem_singleton.mp only]
      exact .refl
    · intro sub
      exact List.mem_singleton.mpr (subclass_of_unnamed axioms name other named sub)

/-- A class is among the expanded ones exactly when it is reachable from a present one. -/
theorem mem_expand_present (axioms : List SubclassAxiom) (present : List Text) (other : Text) :
    other ∈ expandPresent (withSubclassAxioms axioms) present ↔
      ∃ name ∈ present, SubclassOf axioms name other := by
  unfold expandPresent
  split
  · rename_i unfilled
    -- no closure was installed, or one of no axioms: every type is just itself
    have alone (name : Text) : (withSubclassAxioms axioms).supers name = [name] := by
      have absent : (withSubclassAxioms axioms).lookup name = none := by
        apply Option.eq_none_iff_forall_ne_some.mpr
        intro supers held
        have entry := (KeyedMap.mem_entries_iff _ _ _).mpr held
        rw [List.isEmpty_iff.mp unfilled] at entry
        cases entry
      rw [SupersMap.supers, absent]
      rfl
    constructor
    · intro inside
      exact ⟨other, inside, .refl⟩
    · rintro ⟨name, inside, sub⟩
      have only := (mem_supers axioms name other).mpr sub
      rw [alone name] at only
      rw [List.mem_singleton.mp only]
      exact inside
  · rw [OrderedSet.mem_items, mem_expanded]
    simp [mem_supers]

/-- Expanding leaves nothing only of nothing. -/
theorem expand_present_nonempty (axioms : List SubclassAxiom) (present : List Text) :
    expandPresent (withSubclassAxioms axioms) present = [] ↔ present = [] := by
  constructor
  · intro none
    cases present with
    | nil => rfl
    | cons name rest =>
      have inside := (mem_expand_present axioms (name :: rest) name).mpr
        ⟨name, List.mem_cons_self, .refl⟩
      rw [none] at inside
      cases inside
  · rintro rfl
    apply List.eq_nil_iff_forall_not_mem.mpr
    intro other inside
    obtain ⟨name, none, _⟩ := (mem_expand_present axioms [] other).mp inside
    cases none

/-- An input of a class that a present one is a subclass of. -/
def TypedBy (axioms : List SubclassAxiom) (present : List Text) (input : ArgSpec) : Prop :=
  ∃ declared, input.class = some declared ∧ ∃ name ∈ present, SubclassOf axioms name declared

/-- What an action asks for is of such a class: each required input and a member of each
required group; and it asks for something. -/
structure Fits (axioms : List SubclassAxiom) (present : List Text) (action : ActionSpec) :
    Prop where
  inputs : ∀ input ∈ action.inputs, input.required = true → TypedBy axioms present input
  groups : ∀ group ∈ action.groups, group.isRequired = true →
    ∃ input ∈ action.inputs, input.name ∈ group.members ∧ TypedBy axioms present input
  asks : (∃ input ∈ action.inputs, input.required = true) ∨
    ∃ group ∈ action.groups, group.isRequired = true

/-- An input typed by some axioms and classes is typed by more. -/
theorem TypedBy.mono {axioms more : List SubclassAxiom} {present further : List Text}
    {input : ArgSpec} (kept : axioms ⊆ more) (held : present ⊆ further)
    (typed : TypedBy axioms present input) : TypedBy more further input := by
  obtain ⟨declared, named, name, inside, sub⟩ := typed
  exact ⟨declared, named, name, held inside, sub.mono kept⟩

/-- An action that fits under some axioms and classes fits under more. -/
theorem Fits.mono {axioms more : List SubclassAxiom} {present further : List Text}
    {action : ActionSpec} (kept : axioms ⊆ more) (held : present ⊆ further)
    (fits : Fits axioms present action) : Fits more further action where
  inputs input inside required := (fits.inputs input inside required).mono kept held
  groups group inside required := by
    obtain ⟨input, listed, member, typed⟩ := fits.groups group inside required
    exact ⟨input, listed, member, typed.mono kept held⟩
  asks := fits.asks

/-- An input's class is present after expansion exactly when something present is of a subclass.
-/
theorem class_present_iff (axioms : List SubclassAxiom) (present : List Text) (input : ArgSpec) :
    classPresent (expandPresent (withSubclassAxioms axioms) present) input = true ↔
      TypedBy axioms present input := by
  rw [classPresent, TypedBy]
  cases input.class with
  | none => simp
  | some declared => simp [mem_expand_present]

/-- Against the expanded types an action with inputs is satisfiable exactly when it fits. -/
theorem spec_satisfiable_iff (axioms : List SubclassAxiom) (present : List Text)
    (action : ActionSpec) (inputs : action.inputs ≠ []) :
    specSatisfiable action (expandPresent (withSubclassAxioms axioms) present) = true ↔
      Fits axioms present action := by
  have some_ : action.inputs.isEmpty = false := by simpa using inputs
  have asks : ((action.inputs.filter ArgSpec.required).isEmpty &&
      (action.groups.filter InputGroup.isRequired).isEmpty) = false ↔
      (∃ input ∈ action.inputs, input.required = true) ∨
        ∃ group ∈ action.groups, group.isRequired = true := by
    rw [Bool.and_eq_false_iff, ← Bool.not_eq_true, ← Bool.not_eq_true, List.isEmpty_iff,
      List.isEmpty_iff, List.filter_eq_nil_iff, List.filter_eq_nil_iff]
    push Not
    simp
  simp only [specSatisfiable, some_, Bool.false_or, Bool.and_eq_true, Bool.not_eq_true', asks,
    List.all_eq_true, List.mem_filter, List.any_eq_true, decide_eq_true_eq, class_present_iff]
  constructor
  · rintro ⟨⟨required, groups⟩, asks⟩
    refine ⟨fun input inside demanded => required input ⟨inside, demanded⟩, ?_, asks⟩
    intro group inside demanded
    obtain ⟨_, member, input, listed, rfl, typed⟩ := groups group ⟨inside, demanded⟩
    exact ⟨input, listed, member, typed⟩
  · intro fits
    refine ⟨⟨fun input inside => fits.inputs input inside.1 inside.2, ?_⟩, fits.asks⟩
    intro group inside
    obtain ⟨input, listed, member, typed⟩ := fits.groups group inside.1 inside.2
    exact ⟨_, member, input, listed, rfl, typed⟩

section Offers

variable [IriSyntax] [ContentHash]

/-- A query with its present types expanded. -/
def ActionQuery.expanded (query : ActionQuery) (closure : SupersMap) : ActionQuery :=
  { query with present := expandPresent closure query.present }

/-- Whether the contract of a described door is among what is selected. -/
def Offers (axioms : List SubclassAxiom) (entries : List SpaceEntry)
    (probe : Iri → Option Probed) (query : ActionQuery) (pattern : Text) (id : Text)
    (action : ActionSpec) : Prop :=
  ∃ found ∈ (selectActionsBounded entries probe
      (query.expanded (withSubclassAxioms axioms))).1,
    found.endpoint = pattern ∧ found.verb = action.verb ∧ found.action = action.contractIri id

omit [ContentHash] in
/-- What the filters other than the present types let through. -/
theorem expanded_admits (axioms : List SubclassAxiom) (query : ActionQuery)
    (vars : Option (List Text)) (action : ActionSpec) :
    (query.expanded (withSubclassAxioms axioms)).admits vars action = true ↔
      ({ query with present := [] } : ActionQuery).admits vars action = true ∧
        (query.present = [] ∨
          specSatisfiable action (expandPresent (withSubclassAxioms axioms) query.present) =
            true) := by
  rw [← expand_present_nonempty axioms query.present, ← List.isEmpty_iff]
  simp only [ActionQuery.admits, ActionQuery.expanded, Bool.and_eq_true, Bool.or_eq_true,
    List.isEmpty_nil, true_or, and_true]
  tauto

/-- A contract is offered exactly when its door's own action is admitted, and some admitted
action has inputs or no type was asked about. -/
theorem offers_iff {axioms : List SubclassAxiom} {entries : List SpaceEntry}
    {probe : Iri → Option Probed} {query : ActionQuery} {entry : SpaceEntry}
    {described : EntryDescription} {action : ActionSpec} (listed : entry ∈ entries)
    (describes : describeEntry probe entry = some described)
    (declared : action ∈ described.description.actionSpecs) :
    Offers axioms entries probe query entry.pattern described.description.id action ↔
      (query.expanded (withSubclassAxioms axioms)).admits described.templateVars action = true ∧
        (query.present = [] ∨ ∃ fitted entry described action,
          Offered entries probe (query.expanded (withSubclassAxioms axioms)) fitted entry described
            action ∧ action.inputs ≠ []) := by
  have asked : (query.expanded (withSubclassAxioms axioms)).present = [] ↔ query.present = [] :=
    expand_present_nonempty axioms query.present
  constructor
  · rintro ⟨found, selected, pattern, verb, _⟩
    obtain ⟨⟨other, described', action', offered⟩, fitted⟩ :=
      (selected_iff entries probe _ found).mp selected
    rw [offered.found] at pattern verb
    have one := describe_entry_same probe entry other described described' pattern describes
      offered.describes
    subst one
    have actionIs := described'.description.action_specs_agree action' action offered.declared
      declared verb
    subst actionIs
    exact ⟨offered.admitted, fitted.imp_left asked.mp⟩
  · rintro ⟨admitted, fitted⟩
    refine ⟨actionMatch (query.expanded (withSubclassAxioms axioms)) entry.pattern described action,
      ?_, rfl, rfl, rfl⟩
    exact (selected_iff entries probe _ _).mpr
      ⟨⟨entry, described, action, listed, describes, declared, admitted, rfl⟩,
        fitted.imp_left asked.mpr⟩

/-- Of types that are present, an action with inputs is offered exactly when it fits and the
other filters keep it. -/
theorem offers_iff_fits {axioms : List SubclassAxiom} {entries : List SpaceEntry}
    {probe : Iri → Option Probed} {query : ActionQuery} {entry : SpaceEntry}
    {described : EntryDescription} {action : ActionSpec} (present : query.present ≠ [])
    (inputs : action.inputs ≠ []) (listed : entry ∈ entries)
    (describes : describeEntry probe entry = some described)
    (declared : action ∈ described.description.actionSpecs) :
    Offers axioms entries probe query entry.pattern described.description.id action ↔
      ({ query with present := [] } : ActionQuery).admits described.templateVars action = true ∧
        Fits axioms query.present action := by
  rw [offers_iff listed describes declared, expanded_admits,
    spec_satisfiable_iff axioms query.present action inputs]
  constructor
  · rintro ⟨⟨kept, none | fits⟩, _⟩
    · exact absurd none present
    · exact ⟨kept, fits⟩
  · rintro ⟨kept, fits⟩
    refine ⟨⟨kept, .inr fits⟩, .inr ⟨_, entry, described, action, ⟨listed, describes, declared, ?_,
      rfl⟩, inputs⟩⟩
    exact (expanded_admits axioms query described.templateVars action).mpr ⟨kept,
      .inr ((spec_satisfiable_iff axioms query.present action inputs).mpr fits)⟩

omit [ContentHash] in
/-- What is admitted stays so under more axioms and more present types, unless there were none. -/
theorem admits_more {axioms more : List SubclassAxiom} {query : ActionQuery} {further : List Text}
    (kept : axioms ⊆ more) (held : query.present ⊆ further)
    (unasked : query.present = [] → further = []) {vars : Option (List Text)} {action : ActionSpec}
    (admitted : (query.expanded (withSubclassAxioms axioms)).admits vars action = true) :
    (({ query with present := further } : ActionQuery).expanded (withSubclassAxioms more)).admits
      vars action = true := by
  rw [expanded_admits] at admitted ⊢
  refine ⟨admitted.1, ?_⟩
  rcases admitted.2 with none | satisfiable
  · exact .inl (unasked none)
  · refine .inr ?_
    by_cases inputs : action.inputs = []
    · rw [specSatisfiable, inputs]
      rfl
    · rw [spec_satisfiable_iff _ _ _ inputs] at satisfiable ⊢
      exact satisfiable.mono kept held

/-- Nor does an offer go. -/
theorem offers_more {axioms more : List SubclassAxiom} {entries : List SpaceEntry}
    {probe : Iri → Option Probed} {query : ActionQuery} {further : List Text} {pattern id : Text}
    {action : ActionSpec} (kept : axioms ⊆ more) (held : query.present ⊆ further)
    (unasked : query.present = [] → further = [])
    (offers : Offers axioms entries probe query pattern id action) :
    Offers more entries probe { query with present := further } pattern id action := by
  have again {found : ActionMatch} {entry : SpaceEntry} {described : EntryDescription}
      {action : ActionSpec}
      (offered : Offered entries probe (query.expanded (withSubclassAxioms axioms)) found entry
        described action) :
      Offered entries probe
        (({ query with present := further } : ActionQuery).expanded (withSubclassAxioms more))
        (actionMatch _ entry.pattern described action) entry described action :=
    ⟨offered.listed, offered.describes, offered.declared,
      admits_more kept held unasked offered.admitted, rfl⟩
  obtain ⟨found, selected, endpoint, verb, contract⟩ := offers
  obtain ⟨⟨entry, described, action', offered⟩, fitted⟩ :=
    (selected_iff entries probe _ found).mp selected
  rw [offered.found] at endpoint verb contract
  refine ⟨_, (selected_iff entries probe _ _).mpr ⟨⟨entry, described, action', again offered⟩, ?_⟩,
    endpoint, verb, contract⟩
  rcases fitted with none | ⟨fit, entry', described', other, offered', inputs⟩
  · exact .inl ((expand_present_nonempty more further).mpr
      (unasked ((expand_present_nonempty axioms query.present).mp none)))
  · exact .inr ⟨_, entry', described', other, again offered', inputs⟩

/-- The closure is reachability: it holds each named class with all it reaches, and types are
expanded to all they reach. Of types that are present, an action with inputs that the other
filters keep is offered exactly when it fits; and no axiom, and no further type beside these,
withdraws an offer. -/
theorem subclass_inference_is_reachability (axioms : List SubclassAxiom) :
    (∀ name other,
      (∃ supers, (withSubclassAxioms axioms).lookup name = some supers ∧ other ∈ supers) ↔
        name ∈ namedClasses axioms ∧ SubclassOf axioms name other) ∧
      (∀ present other, other ∈ expandPresent (withSubclassAxioms axioms) present ↔
        ∃ name ∈ present, SubclassOf axioms name other) ∧
      ∀ (entries : List SpaceEntry) (probe : Iri → Option Probed) (query : ActionQuery),
        (query.present ≠ [] → ∀ entry ∈ entries, ∀ described,
          describeEntry probe entry = some described →
            ∀ action ∈ described.description.actionSpecs, action.inputs ≠ [] →
              (Offers axioms entries probe query entry.pattern described.description.id action ↔
                ({ query with present := [] } : ActionQuery).admits described.templateVars action =
                  true ∧ Fits axioms query.present action)) ∧
        ∀ more further, axioms ⊆ more → query.present ⊆ further →
          (query.present = [] → further = []) → ∀ pattern id action,
            Offers axioms entries probe query pattern id action →
              Offers more entries probe { query with present := further } pattern id action := by
  refine ⟨closure_exact axioms, mem_expand_present axioms, fun entries probe query => ⟨?_, ?_⟩⟩
  · intro present entry listed described describes action declared inputs
    exact offers_iff_fits present inputs listed describes declared
  · intro more further kept held unasked pattern id action offers
    exact offers_more kept held unasked offers

end Offers

namespace SubclassExample

local instance everyIri : IriSyntax := ⟨fun _ => true, fun _ => []⟩

local instance zeroDigest : ContentHash := ⟨fun _ => Vector.replicate 32 0⟩

def person : Text := "foaf:Person".toList

def agent : Text := "schema:Agent".toList

def greet : ActionSpec :=
  { verb := .source, inputs := [{ name := "who".toList, «class» := some agent }] }

def door : Description := { id := "greet".toList, verbs := [.source], actions := [greet] }

def entries : List SpaceEntry := [⟨"urn:demo:greet".toList, "greet".toList⟩]

def probe (_ : Iri) : Option Probed := some ⟨"greet".toList, door⟩

/-- A person is an agent, so what an agent may be given to is offered. -/
theorem person_greeted : Offers [(person, agent)] entries probe { present := [person] }
    "urn:demo:greet".toList "greet".toList greet :=
  (((subclass_inference_is_reachability [(person, agent)]).2.2 entries probe
    { present := [person] }).1 (by decide) ⟨"urn:demo:greet".toList, "greet".toList⟩ (by decide)
    ⟨door, none⟩ rfl greet (by decide) (by decide)).mpr
    ⟨by decide, by
      refine ⟨?_, nofun, .inl ⟨{ name := "who".toList, «class» := some agent }, by decide, rfl⟩⟩
      intro input inside _
      rw [List.mem_singleton.mp inside]
      exact ⟨agent, rfl, person, by decide, .single (by decide)⟩⟩

/-- With nothing present there is no filter by type: an action is offered though its class is
reached from nothing, and a type that is then present withdraws it. -/
theorem offered_of_nothing :
    Offers [] entries probe {} "urn:demo:greet".toList "greet".toList greet ∧
      ¬Fits [] [] greet ∧
      ¬Offers [] entries probe { present := [person] } "urn:demo:greet".toList "greet".toList
        greet := by
  have listed : (⟨"urn:demo:greet".toList, "greet".toList⟩ : SpaceEntry) ∈ entries := by decide
  have declared : greet ∈ door.actionSpecs := by decide
  have describes : describeEntry probe ⟨"urn:demo:greet".toList, "greet".toList⟩ =
    some ⟨door, none⟩ := rfl
  refine ⟨(offers_iff listed describes declared).mpr ⟨by decide, .inl rfl⟩, ?_, ?_⟩
  · intro fits
    obtain ⟨_, _, _, none, _⟩ := fits.inputs _ List.mem_cons_self rfl
    cases none
  · intro offers
    obtain ⟨_, fits⟩ := (offers_iff_fits (by decide) (by decide) listed describes declared).mp
      offers
    obtain ⟨declared, named, name, inside, sub⟩ := fits.inputs _ List.mem_cons_self rfl
    cases named
    rw [List.mem_singleton.mp inside] at sub
    have same := subclass_of_unnamed [] person agent (by decide) sub
    revert same
    decide

end SubclassExample

end Ikigai
