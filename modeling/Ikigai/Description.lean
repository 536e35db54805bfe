import Ikigai.Representation
import Ikigai.Request

/-!
# Descriptions

An endpoint's contract: the verbs it declares, and for each the inputs, outputs and
scopes, with the texts a reader is shown. Two authoring forms, an action of its own for a
verb and the flat fields for any other, normalize to one view.
-/

namespace Ikigai

/-- Where an input's value comes from: passed by value, or captured from the name. -/
inductive InputSource where
  | argument
  | binding
deriving DecidableEq, Repr

/-- What one value of an enumerated input means. -/
structure ValueNote where
  summary : Text := []
  tags : List Text := []
  needs : List Text := []
deriving DecidableEq, Repr

/-- How the items of a list input are set apart. -/
inductive ListSeparator where
  | comma
  | whitespace
  | commaOrWhitespace
  | newline
deriving DecidableEq, Repr

def ListSeparator.word : ListSeparator → Text
  | .comma => "comma".toList
  | .whitespace => "whitespace".toList
  | .commaOrWhitespace => "comma-or-whitespace".toList
  | .newline => "newline".toList

/-- An input. Its value notes are a map, kept in the order of its keys; `fixed` is what a
named request gives in the caller's place. -/
structure ArgSpec where
  name : Text
  summary : Text := []
  required : Bool := true
  source : InputSource := .argument
  «class» : Option Text := none
  default : Option Text := none
  oneOf : List Text := []
  enumerated : Bool := false
  examples : List Text := []
  needs : List Text := []
  list : Option ListSeparator := none
  values : List (Text × ValueNote) := []
  readsBody : Bool := false
  fixed : Option Text := none
deriving DecidableEq, Repr

/-- Whether an enumeration is declared, an empty one included. -/
def ArgSpec.isEnumerated (input : ArgSpec) : Bool := input.enumerated || !input.oneOf.isEmpty

inductive GroupKind where
  | exactlyOne
  | atLeastOne
  | atMostOne
deriving DecidableEq, Repr

def GroupKind.word : GroupKind → Text
  | .exactlyOne => "exactly-one".toList
  | .atLeastOne => "at-least-one".toList
  | .atMostOne => "at-most-one".toList

/-- A relation between an action's inputs, and the member a pipe fills. -/
structure InputGroup where
  kind : GroupKind
  members : List Text
  pipe : Option Text := none
deriving DecidableEq, Repr

/-- Whether an action takes arguments it does not declare: freely, or as the fields of one
input that carries them. -/
inductive Arguments where
  | closed
  | «open» (summary : Text)
  | envelope (carrier : Text)
deriving DecidableEq, Repr

def Arguments.isClosed : Arguments → Bool
  | .closed => true
  | .«open» _ | .envelope _ => false

/-- Where the type of an answer is taken from. -/
inductive OutputFrom where
  | input (name : Text)
  | origin
deriving DecidableEq, Repr

inductive FailureClass where
  | transient
  | retryAfter
  | overBudget
  | denied
  | refused
  | permanent
  | unknown
deriving DecidableEq, Repr

/-- The classes of failure an action says it can produce. -/
inductive Failures where
  | unstated
  | only (classes : List FailureClass)
deriving DecidableEq, Repr

def Failures.classes : Failures → Option (List FailureClass)
  | .unstated => none
  | .only classes => some classes

/-- The contract of one verb. -/
structure ActionSpec where
  verb : Verb
  summary : Text := []
  inputs : List ArgSpec := []
  outputs : List Text := []
  requires : List Text := []
  groups : List InputGroup := []
  arguments : Arguments := .closed
  outputFrom : Option OutputFrom := none
  failures : Failures := .unstated
  existenceSensitive : Bool := false
deriving DecidableEq, Repr

/-- How long what is derived from a description may be kept. -/
inductive ContractCaching where
  | untilRebind
  | maxAge (millis : Nat)
  | volatile
deriving DecidableEq, Repr

/-- `Time::plus_millis`, which saturates. -/
def plusMillis (now : Time) (millis : Nat) : Time := saturatingAdd now millis

namespace ContractCaching

/-- The tighter of two bounds. -/
def mostRestrictive : ContractCaching → ContractCaching → ContractCaching
  | .volatile, _ => .volatile
  | _, .volatile => .volatile
  | .maxAge first, .maxAge second => .maxAge (min first second)
  | .maxAge age, .untilRebind => .maxAge age
  | .untilRebind, .maxAge age => .maxAge age
  | .untilRebind, .untilRebind => .untilRebind

/-- The expiry of what is derived from a description read now. -/
def expiryAt (caching : ContractCaching) (now : Option Time) : Expiry :=
  match caching with
  | .untilRebind => .never
  | .maxAge age =>
    match now with
    | some now => .«at» (plusMillis now (min age wordMax))
    | none => .always
  | .volatile => .always

end ContractCaching

/-- What a transreptor turns into what, whether nothing is lost on the way, and whether it
reads its content as it comes. -/
structure Transreption where
  reads : List Text := []
  writes : List Text := []
  lossless : Bool := true
  incremental : Bool := false
deriving DecidableEq, Repr

inductive EndpointKind where
  | endpoint
  | transreptor (transreption : Transreption)
deriving DecidableEq, Repr

structure Description where
  id : Text
  title : Text := []
  summary : Text := []
  verbs : List Verb := []
  inputs : List ArgSpec := []
  outputs : List Text := []
  kind : EndpointKind := .endpoint
  requires : List Text := []
  actions : List ActionSpec := []
  groups : List InputGroup := []
  arguments : Arguments := .closed
  outputFrom : Option OutputFrom := none
  failures : Failures := .unstated
  contractCaching : ContractCaching := .untilRebind
  existenceSensitive : Bool := false
deriving DecidableEq, Repr

namespace Description

/-- Whether any verb hides the resource's existence. -/
def hidesExistence (description : Description) : Bool :=
  description.existenceSensitive || description.actions.any fun action => action.existenceSensitive

/-- The flat fields as the contract of one verb. -/
def flatAction (description : Description) (verb : Verb) : ActionSpec where
  verb := verb
  inputs := description.inputs
  outputs := description.outputs
  requires := description.requires
  groups := description.groups
  arguments := description.arguments
  outputFrom := description.outputFrom
  failures := description.failures
  existenceSensitive := description.existenceSensitive

/-- One contract for each declared verb but Meta: the verb's own action, or the flat
fields. -/
def actionSpecs (description : Description) : List ActionSpec :=
  (description.verbs.filter fun verb => verb ≠ .«meta»).map fun verb =>
    (description.actions.find? fun action => action.verb = verb).getD (description.flatAction verb)

/-- The contract listed for a verb is a contract of that verb. -/
theorem action_of_verb (description : Description) (verb : Verb) :
    ((description.actions.find? fun action => action.verb = verb).getD
      (description.flatAction verb)).verb = verb := by
  cases found : description.actions.find? fun action => action.verb = verb with
  | none => rfl
  | some action => simpa using List.find?_some found

/-- A verb listed twice lists one contract twice. -/
theorem action_specs_agree (description : Description) (first second : ActionSpec)
    (member : first ∈ description.actionSpecs) (member' : second ∈ description.actionSpecs)
    (same : first.verb = second.verb) : first = second := by
  obtain ⟨verb, _, rfl⟩ := List.mem_map.mp member
  obtain ⟨verb', _, rfl⟩ := List.mem_map.mp member'
  rw [action_of_verb, action_of_verb] at same
  rw [same]

/-- A contract that is listed is the first of its verb. -/
theorem find_action_spec (description : Description) (action : ActionSpec)
    (member : action ∈ description.actionSpecs) :
    (description.actionSpecs.find? fun spec => spec.verb = action.verb) = some action := by
  cases found : description.actionSpecs.find? fun spec => spec.verb = action.verb with
  | none =>
    have none := List.find?_eq_none.mp found action member
    simp at none
  | some spec =>
    have verb : spec.verb = action.verb := by simpa using List.find?_some found
    rw [description.action_specs_agree spec action (List.mem_of_find?_eq_some found) member verb]

end Description

end Ikigai
