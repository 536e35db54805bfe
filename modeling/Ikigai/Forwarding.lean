import Ikigai.AliasText

/-!
# Forwards

An endpoint that forwards every request it gets to another name is described by its target: the
target's contract for the verbs that are forwarded, with what is fixed marked, what the name
captures as bindings, and what the name declares itself in place of what the target does.
-/

namespace Ikigai

/-- What a forwarding endpoint forwards to. -/
structure Forward where
  name : Text
  target : Iri
  verb : Option Verb := none
  fixed : List FixedArgument := []
  captures : List Text := []
  inputs : List ArgSpec := []
deriving DecidableEq, Repr

/-- How many forwards a description follows before it stops. -/
def maxForwards : Nat := 8

namespace ArgSpec

/-- An input a named request gives in the caller's place. -/
def fixedTo (input : ArgSpec) (value : Text) : ArgSpec :=
  { input with fixed := some value, required := false }

end ArgSpec

namespace Description

/-- Declare a verb. -/
def withVerb (description : Description) (verb : Verb) : Description :=
  { description with verbs := description.verbs ++ [verb] }

/-- Declare the contract of a verb, which is declared with it if it was not. -/
def withAction (description : Description) (action : ActionSpec) : Description :=
  { description with
    verbs :=
      if action.verb ∈ description.verbs then description.verbs
      else description.verbs ++ [action.verb]
    actions := description.actions ++ [action] }

end Description

namespace Forward

/-- What a forwarder's own contract says when its target resolves to nothing. -/
def resolvesToNothing (forward : Forward) : Text :=
  " Its target <".toList ++ forward.target ++
    "> resolves to nothing here, so this is the forwarder's own contract.".toList

/-- `Display` of a fixed argument, as a summary lists it. -/
def words (forward : Forward) : List Text :=
  forward.fixed.map fun argument => argument.name ++ '=' :: argument.value.text

def summary (forward : Forward) (target : Description) : Text :=
  forward.name ++ " = ".toList ++
    (match forward.verb with
      | none => []
      | some verb => verb.name ++ [' ']) ++
    forward.target ++ (if forward.words.isEmpty then [] else [' ']) ++
    [' '].intercalate forward.words ++
    if target.summary.isEmpty then [] else ". ".toList ++ target.summary

/-- The verbs that are forwarded: the bound one with `Exists`, or the target's. -/
def verbs (forward : Forward) (specs : List ActionSpec) : List Verb :=
  match forward.verb with
  | some bound => [bound, .exists]
  | none => (specs.map ActionSpec.verb).filter fun verb => verb ≠ .«meta»

/-- The target's contract for a verb; an undeclared `Exists` runs what a reader runs. -/
def specFor (specs : List ActionSpec) (verb : Verb) : Option ActionSpec :=
  (specs.find? fun spec => spec.verb = verb) <|>
    if verb = .exists then specs.find? fun spec => spec.verb = .source else none

/-- Whether a fixed argument is stated once, as the capture of its own name. -/
def isOwnCapture (argument : FixedArgument) : Bool :=
  match argument.value with
  | .capture captured => captured = argument.name
  | .value _ | .reference _ | .referenceTemplate _ => false

/-- Change the first input of a name, or declare it. -/
def markFixed (name spelled : Text) : List ArgSpec → List ArgSpec
  | [] => [ArgSpec.fixedTo { name := name } spelled]
  | input :: rest =>
    if input.name = name then
      -- a default would invite a caller to think that it applies
      { input with fixed := some spelled, required := false, default := none } :: rest
    else input :: markFixed name spelled rest

def fixInputs (inputs : List ArgSpec) (argument : FixedArgument) : List ArgSpec :=
  if isOwnCapture argument then inputs else markFixed argument.name argument.value.text inputs

def captureInput (forward : Forward) (inputs : List ArgSpec) (captured : Text) : List ArgSpec :=
  (inputs.filter fun input => input.name ≠ captured) ++
    [{ name := captured
       source := .binding
       summary := "captured by the name ".toList ++ forward.name }]

def declareInput (inputs : List ArgSpec) (declared : ArgSpec) : List ArgSpec :=
  (inputs.filter fun input => input.name ≠ declared.name) ++ [declared]

/-- The inputs of a projected contract. -/
def projectInputs (forward : Forward) (inputs : List ArgSpec) : List ArgSpec :=
  forward.inputs.foldl declareInput
    (forward.captures.foldl forward.captureInput (forward.fixed.foldl fixInputs inputs))

/-- A contract as the forwarder presents it for a verb. A relation between inputs one of which is
fixed is left out. -/
def projectSpec (forward : Forward) (verb : Verb) (spec : ActionSpec) : ActionSpec :=
  { spec with
    verb := verb
    inputs := forward.projectInputs spec.inputs
    groups := spec.groups.filter fun group =>
      !group.members.any fun member => member ∈ forward.fixed.map FixedArgument.name }

/-- The contract a forward presents: its target's, projected, or the forwarder's own when the
target resolved to nothing. -/
def project (forward : Forward) (own : Description) : Option Description → Description
  | none => { own with summary := own.summary ++ forward.resolvesToNothing }
  | some target =>
    let specs := target.actionSpecs
    let named : Description :=
      { id := forward.name
        title := if target.title.isEmpty then forward.name else target.title
        summary := forward.summary target }
    let described := (forward.verbs specs).foldl
      (fun described verb =>
        match specFor specs verb with
        | some spec => (described.withVerb verb).withAction (forward.projectSpec verb spec)
        | none => described)
      named
    { described.withVerb .«meta» with
      outputs := target.outputs
      existenceSensitive := target.existenceSensitive
      contractCaching := own.contractCaching.mostRestrictive target.contractCaching }

end Forward

end Ikigai
