import Ikigai.Capability
import Ikigai.Description

/-!
# The admission floor

What the kernel reads of a description before it dispatches: the scopes each verb needs,
the defaults it fills in, which inputs are read as a body or given as a name, and
whether a refusal must answer as a name bound nowhere.
-/

namespace Ikigai

/-- One verb's declared defaults, input and lexical form. -/
abbrev Defaults := List (Text × Text)

/-- The names of one verb's inputs of some kind. -/
abbrev Readers := List Text

/-- `xsd:anyURI`, as a full IRI or the usual CURIE. -/
def isAnyUri (name : Text) : Bool :=
  name == "http://www.w3.org/2001/XMLSchema#anyURI".toList || name == "xsd:anyURI".toList

/-- How a verb's contract settles an argument given by reference. -/
structure References where
  names : Readers
  values : Readers
  declared : Readers
  «open» : Bool
deriving DecidableEq, Repr

/-- What a reference becomes: the name's text, the referent's bytes, or nothing. -/
def References.settles (references : References) (name : Text) : Option Bool :=
  if name ∈ references.names then some true
  else if name ∈ references.values || (references.«open» && !(name ∈ references.declared)) then
    some false
  else none

structure Floor where
  declared : List (Verb × List Text)
  every : List Text
  defaults : List (Verb × Defaults)
  bindingDefaults : List (Verb × Defaults)
  sensitive : List Verb
  anySensitive : Bool
  bodyReaders : List (Verb × Readers)
  nameInputs : List (Verb × Readers)
  valueInputs : List (Verb × Readers)
  openArguments : List Verb
  allInputs : List (Verb × Readers)
deriving DecidableEq, Repr

namespace Floor

/-- The first entry of a table for a verb. -/
def own {τ : Type} (table : List (Verb × τ)) (verb : Verb) : Option τ :=
  (table.find? fun entry => entry.1 = verb).map Prod.snd

/-- A table made from each action is read at the first of its verb. -/
theorem own_table {τ : Type} (specs : List ActionSpec) (read : ActionSpec → τ) (verb : Verb) :
    own (specs.map fun spec => (spec.verb, read spec)) verb =
      (specs.find? fun spec => spec.verb = verb).map read := by
  induction specs with
  | nil => rfl
  | cons spec specs ih =>
    by_cases first : spec.verb = verb
    · simp [own, first]
    · simpa [own, first] using ih

/-- The rule every table but the scopes' follows: the verb's own entry, for an undeclared
`Exists` that of `Source`, nothing for `Meta`. -/
def entryForVerb {τ : Type} (table : List (Verb × τ)) (verb : Verb) : Option τ :=
  match verb, own table verb with
  | .«meta», _ => none
  | _, some entry => some entry
  | .exists, none => own table .source
  | _, none => none

/-- A list's members in the order they first appear. -/
def deduplicated (scopes : List Text) : List Text :=
  scopes.foldl (fun every scope => if scope ∈ every then every else every ++ [scope]) []

def declaredDefaults (specs : List ActionSpec) (source : InputSource) : List (Verb × Defaults) :=
  specs.map fun spec => (spec.verb,
    (spec.inputs.filter fun input => input.source = source).filterMap fun input =>
      input.default.map fun value => (input.name, value))

def byValue (specs : List ActionSpec) (nameLike : Bool) : List (Verb × Readers) :=
  specs.map fun spec => (spec.verb,
    (((spec.inputs.filter fun input => input.source = .argument).filter fun input =>
      !input.readsBody).filter fun input =>
        (input.«class».any isAnyUri) == nameLike).map ArgSpec.name)

/-- The inputs read as a body: those that say so, and an incremental transreptor's
`content`. -/
def readersOf (incremental : Bool) (spec : ActionSpec) : Readers :=
  let readers := (spec.inputs.filter fun input =>
    input.readsBody && input.source = .argument).map ArgSpec.name
  if incremental && spec.verb = .source && !readers.any (· == "content".toList) then
    readers ++ ["content".toList]
  else readers

def of (description : Description) : Floor :=
  let specs := description.actionSpecs
  let sensitive := (specs.filter ActionSpec.existenceSensitive).map ActionSpec.verb
  let incremental :=
    match description.kind with
    | .endpoint => false
    | .transreptor transreption => transreption.incremental
  let declared := specs.map fun spec => (spec.verb, spec.requires)
  { declared
    every := deduplicated (declared.flatMap Prod.snd ++
      if declared.isEmpty then
        description.requires ++ description.actions.flatMap ActionSpec.requires
      else [])
    defaults := declaredDefaults specs .argument
    bindingDefaults := declaredDefaults specs .binding
    sensitive
    anySensitive := !sensitive.isEmpty || description.hidesExistence
    bodyReaders := specs.map fun spec => (spec.verb, readersOf incremental spec)
    nameInputs := byValue specs true
    valueInputs := byValue specs false
    openArguments := (specs.filter fun spec => !spec.arguments.isClosed).map ActionSpec.verb
    allInputs := specs.map fun spec => (spec.verb, spec.inputs.map ArgSpec.name) }

def readersFor (table : List (Verb × Readers)) (verb : Verb) : Readers :=
  (entryForVerb table verb).getD []

/-- How a reference to each argument is settled; nothing when the contract settles none. -/
def references (floor : Floor) (verb : Verb) : Option References :=
  let isOpen :=
    if verb = .«meta» then false
    else if verb ∈ floor.openArguments then true
    else if verb = .exists && !floor.declared.any fun entry => entry.1 = .exists then
      decide (.source ∈ floor.openArguments)
    else false
  let names := readersFor floor.nameInputs verb
  let values := readersFor floor.valueInputs verb
  if !isOpen && names.isEmpty && values.isEmpty then none
  else some ⟨names, values, readersFor floor.allInputs verb, isOpen⟩

/-- The defaults a request with this verb is filled with. -/
def defaultsFor (floor : Floor) (verb : Verb) : Defaults :=
  (entryForVerb floor.defaults verb).getD []

/-- The defaults a resolution's bindings are filled with. -/
def bindingDefaultsFor (floor : Floor) (verb : Verb) : Defaults :=
  (entryForVerb floor.bindingDefaults verb).getD []

/-- The scopes a request with this verb must hold. -/
def requirements (floor : Floor) (verb : Verb) : List Text :=
  match own floor.declared verb with
  | some scopes => scopes
  | none =>
    match verb with
    | .«meta» => []
    | .exists => (own floor.declared .source).getD floor.every
    | .source | .sink | .delete => floor.every

variable [IriSyntax]

/-- Whether a capability satisfies every one of these scopes. -/
def passes (capability : Capability) (scopes : List Text) : Bool :=
  scopes.all fun scope => capability.satisfies scope

/-- The first scope the verb requires that the capability does not satisfy. -/
def unsatisfied (floor : Floor) (verb : Verb) (capability : Capability) : Option Text :=
  (floor.requirements verb).find? fun scope => !capability.satisfies scope

/-- Whether a refusal of this verb, or a description for `Meta`, answers as a name bound
nowhere. -/
def conceals (floor : Floor) (verb : Verb) (capability : Capability) : Bool :=
  if !floor.anySensitive then false
  else if verb = .«meta» then
    if floor.declared.isEmpty then !passes capability floor.every
    else !floor.declared.any fun entry => passes capability entry.2
  else
    let marked :=
      if floor.declared.any fun entry => entry.1 = verb then decide (verb ∈ floor.sensitive)
      else true
    marked && !passes capability (floor.requirements verb)

/-- What is lacking is a scope the verb requires and the capability does not satisfy. -/
theorem unsatisfied_eq_none_iff (floor : Floor) (verb : Verb) (capability : Capability) :
    floor.unsatisfied verb capability = none ↔ passes capability (floor.requirements verb) = true := by
  simp [unsatisfied, passes]

/-- A floor with nothing sensitive conceals from no one. -/
theorem conceals_sensitive (floor : Floor) (verb : Verb) (capability : Capability)
    (hidden : floor.conceals verb capability = true) : floor.anySensitive = true := by
  by_contra open_
  rw [Bool.not_eq_true] at open_
  rw [conceals, open_] at hidden
  cases hidden

/-- Only a capability the floor refuses is concealed from, `Meta` apart. -/
theorem conceals_lacks (floor : Floor) (verb : Verb) (capability : Capability)
    (acts : verb ≠ .«meta») (hidden : floor.conceals verb capability = true) :
    (floor.unsatisfied verb capability).isSome = true := by
  have sensitive := floor.conceals_sensitive verb capability hidden
  simp only [conceals, sensitive, Bool.not_true, Bool.false_eq_true, ↓reduceIte, if_neg acts,
    Bool.and_eq_true, Bool.not_eq_true'] at hidden
  by_contra admitted
  rw [Bool.not_eq_true, Option.isSome_eq_false_iff, Option.isNone_iff_eq_none,
    unsatisfied_eq_none_iff, hidden.2] at admitted
  cases admitted

end Floor

end Ikigai
