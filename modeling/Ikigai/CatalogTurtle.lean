import Ikigai.CatalogNodes
import Ikigai.Selection

/-!
# Turtle faces

What is written as Turtle from an author's strings: a description as the catalog writes it,
the matches of a query, and the report of a proposed call. Every string goes through an
encoder: a name as an escaped segment, an authored IRI as itself if it is one, anything
else between quotes. The catalog and the kernel each have a copy of the last two.
-/

namespace Ikigai

/-- An IRI between brackets. -/
def bracketed (iri : Text) : Text := '<' :: (iri ++ ['>'])

/-- A string between quotes, its escapes already made. -/
def quotes (escaped : Text) : Text := '"' :: (escaped ++ ['"'])

/-- A property of the vocabulary with its objects. -/
def ikProperty (word : String) (objects : Text) : Text :=
  "ik:".toList ++ word.toList ++ ' ' :: objects

def ikWord (word : String) : Text := "ik:".toList ++ word.toList

def typeProperty (objects : Text) : Text := "a".toList ++ ' ' :: objects

def boolText (value : Bool) : Text := if value then "true".toList else "false".toList

/-- Objects of one property. -/
def objectList (objects : List Text) : Text := ", ".toList.intercalate objects

/-- What stands between two properties. -/
def propertySeparator : Text := " ;\n    ".toList

/-- A subject and its properties. -/
def nodeStatement (iri : Text) (properties : List Text) : Text :=
  bracketed iri ++ (' ' :: propertySeparator.intercalate properties ++ " .".toList)

/-- The heading of a document that declares one name. -/
def turtleHeading (name ns : Text) : Text :=
  "@prefix ".toList ++ ((name ++ [':']) ++ (' ' :: bracketed ns ++ " .".toList))

def ikNamespace : Text := "https://ikigai-rs.dev/ns#".toList

def skosNamespace : Text := "http://www.w3.org/2004/02/skos/core#".toList

/-- Whether a scope looks like an IRI. -/
def looksLikeIri (scope : Text) : Bool :=
  scope.startsWith "urn:".toList || scope.startsWith "http://".toList ||
    scope.startsWith "https://".toList

section Kernel

/-- `topology::escape_literal`. -/
def escapeLiteral (text : Text) : Text :=
  (((text.replace '\\' "\\\\".toList).replace '"' "\\\"".toList).replace '\n' "\\n".toList).replace
    '\r' "\\r".toList

/-- A scope as a term: an IRI when it looks like one and is one. -/
def scopeTerm [IriSyntax] (scope : Text) : Text :=
  if looksLikeIri scope then
    match Iri.parse (escapeIriFragment scope) with
    | some iri => bracketed iri
    | none => quotes (escapeLiteral scope)
  else quotes (escapeLiteral scope)

/-- A verb's own name. -/
def verbName : Verb → Text
  | .source => "Source".toList
  | .sink => "Sink".toList
  | .exists => "Exists".toList
  | .delete => "Delete".toList
  | .«meta» => "Meta".toList

end Kernel

namespace Vocab

def escapeChar (c : Char) : Text :=
  match c with
  | '\\' => "\\\\".toList
  | '"' => "\\\"".toList
  | '\n' => "\\n".toList
  | '\r' => "\\r".toList
  | '\t' => "\\t".toList
  | c => [c]

/-- `escape_literal`. -/
def escapeLiteral (text : Text) : Text := text.flatMap escapeChar

def lit (text : Text) : Text := quotes (escapeLiteral text)

def sourceName : InputSource → Text
  | .argument => "argument".toList
  | .binding => "binding".toList

/-- A class's word in upper camel case. -/
def failureClassLocal (failure : FailureClass) : Text :=
  ((failure.word.splitOn '-').flatMap fun part =>
    match part with
    | first :: rest => first.toUpper :: rest
    | [] => []) ++ "Failure".toList

def failureClassTerm (failure : FailureClass) : Text :=
  "ik:".toList ++ failureClassLocal failure

def inputNodeIri (owner name : Text) : Text := owner ++ ":input:".toList ++ encodeName name

def valueNodeIri (owner input value : Text) : Text :=
  owner ++ ":input:".toList ++ encodeName input ++ ":value:".toList ++ encodeName value

section Terms

variable [IriSyntax]

/-- An authored IRI: itself when it is one, else a literal. -/
def iriTerm (text : Text) : Text :=
  match Iri.parse (escapeIriFragment text) with
  | some iri => bracketed iri
  | none => lit text

/-- A scope as a term. -/
def capTerm (scope : Text) : Text := if looksLikeIri scope then iriTerm scope else lit scope

/-- The properties of an input's node. -/
def inputPredicates (owner : Text) (input : ArgSpec) : List Text :=
  [ikProperty "inputName" (lit input.name), ikProperty "source" (lit (sourceName input.source)),
    ikProperty "required" (boolText input.required)] ++
  (if input.summary.isEmpty then [] else [ikProperty "summary" (lit input.summary)]) ++
  (input.class.toList.map fun declared => ikProperty "class" (iriTerm declared)) ++
  (input.default.toList.map fun default => ikProperty "default" (lit default)) ++
  (input.oneOf.map fun value => ikProperty "oneOf" (lit value)) ++
  (if input.isEnumerated && input.oneOf.isEmpty then [ikProperty "enumerated" (boolText true)]
    else []) ++
  (input.examples.map fun shown => ikProperty "example" (lit shown)) ++
  (input.list.toList.map fun separator => ikProperty "listSeparator" (lit separator.word)) ++
  (input.needs.map fun needed => ikProperty "needs" (bracketed (inputNodeIri owner needed))) ++
  (if input.readsBody then [ikProperty "readsBody" (boolText true)] else []) ++
  (input.fixed.toList.map fun fixed => ikProperty "fixed" (lit fixed)) ++
  input.values.map fun value =>
    ikProperty "valueNote" (bracketed (valueNodeIri owner input.name value.1))

end Terms

/-- The properties of a described value's node. -/
def valuePredicates (owner value : Text) (note : ValueNote) : List Text :=
  [typeProperty (bracketed (skosNamespace ++ "Concept".toList)),
    bracketed (skosNamespace ++ "notation".toList) ++ ' ' :: lit value] ++
  (if note.summary.isEmpty then []
    else [bracketed (skosNamespace ++ "definition".toList) ++ ' ' :: lit note.summary]) ++
  (note.tags.map fun tag => ikProperty "tag" (lit tag)) ++
  note.needs.map fun needed => ikProperty "needs" (bracketed (inputNodeIri owner needed))

/-- The nodes of an input's described values. -/
def valueNodes (owner : Text) (input : ArgSpec) : List Text :=
  input.values.map fun value =>
    nodeStatement (valueNodeIri owner input.name value.1) (valuePredicates owner value.1 value.2)

def outputFromPredicate (owner : Text) : Option OutputFrom → List Text
  | some (.input name) => [ikProperty "outputFrom" (bracketed (inputNodeIri owner name))]
  | some .origin => [ikProperty "outputFrom" (ikWord "Origin")]
  | none => []

def argumentsPredicate (owner : Text) : Arguments → List Text
  | .open summary => [ikProperty "openArguments" (lit summary)]
  | .envelope carrier => [ikProperty "envelope" (bracketed (inputNodeIri owner carrier))]
  | .closed => []

def groupIri (owner : Text) (group : InputGroup) : Text := owner ++ ":".toList ++ group.nodeSegment

def groupPredicates (owner : Text) (group : InputGroup) : List Text :=
  [typeProperty (ikWord "InputGroup"), ikProperty "groupKind" (lit group.kind.word)] ++
  (group.members.map fun member => ikProperty "member" (bracketed (inputNodeIri owner member))) ++
  group.pipe.toList.map fun pipe => ikProperty "pipe" (bracketed (inputNodeIri owner pipe))

/-- The node of a group. -/
def groupNode (owner : Text) (group : InputGroup) : Text :=
  nodeStatement (groupIri owner group) (groupPredicates owner group)

/-- What hangs off an owner: its inputs and where its output and its groups point. -/
def hungPredicates (owner : Text) (inputs : List ArgSpec) (arguments : Arguments)
    (outputFrom : Option OutputFrom) (groups : List InputGroup) : List Text :=
  (inputs.map fun input => ikProperty "input" (bracketed (inputNodeIri owner input.name))) ++
    argumentsPredicate owner arguments ++ outputFromPredicate owner outputFrom ++
    groups.map fun group => ikProperty "group" (bracketed (groupIri owner group))

section Documents

variable [IriSyntax]

/-- The nodes of an owner's inputs, each with its described values. -/
def inputNodes (owner : Text) (inputs : List ArgSpec) : List Text :=
  inputs.flatMap fun input =>
    nodeStatement (inputNodeIri owner input.name) (inputPredicates owner input) ::
      valueNodes owner input

def endpointIri (id : Text) : Text := endpointPrefix ++ encodeName id

/-- A property with all its objects, if there are any. -/
def listed {α : Type} (word : String) (write : α → Text) (items : List α) : List Text :=
  if items.isEmpty then [] else [ikProperty word (objectList (items.map write))]

def transreptionPredicates : EndpointKind → List Text
  | .endpoint => []
  | .transreptor transreption =>
    listed "transreptsFrom" lit transreption.reads ++ listed "transreptsTo" lit transreption.writes ++
      [ikProperty "lossless" (boolText transreption.lossless)]

/-- The types of an endpoint's node. -/
def endpointTypes : EndpointKind → List Text
  | .endpoint => [ikWord "Endpoint"]
  | .transreptor _ => [ikWord "Endpoint", ikWord "Transreptor"]

variable [ContentHash]

/-- The properties of an endpoint's node. -/
def endpointPredicates (description : Description) : List Text :=
  [typeProperty (objectList (endpointTypes description.kind)),
    ikProperty "id" (lit description.id)] ++
  (if description.title.isEmpty then [] else [ikProperty "title" (lit description.title)]) ++
  (if description.summary.isEmpty then [] else [ikProperty "summary" (lit description.summary)]) ++
  listed "verb" (fun verb => lit (verbName verb)) description.verbs ++
  listed "output" lit description.outputs ++ listed "requires" capTerm description.requires ++
  (if description.existenceSensitive then [ikProperty "existenceSensitive" (boolText true)]
    else []) ++
  listed "mayFail" failureClassTerm (description.failures.classes.getD []) ++
  transreptionPredicates description.kind ++
  hungPredicates (endpointIri description.id) description.inputs description.arguments
    description.outputFrom description.groups ++
  description.actionSpecs.map fun action =>
    ikProperty "action" (bracketed (action.contractIri description.id))

/-- The properties of a contract's node. -/
def actionPredicates (owner : Text) (action : ActionSpec) : List Text :=
  [typeProperty (ikWord "Action"), ikProperty "verb" (lit (verbName action.verb))] ++
  (if action.summary.isEmpty then [] else [ikProperty "summary" (lit action.summary)]) ++
  (action.outputs.map fun output => ikProperty "output" (lit output)) ++
  (action.requires.map fun scope => ikProperty "requires" (capTerm scope)) ++
  ((action.failures.classes.getD []).map fun failure =>
    ikProperty "mayFail" (failureClassTerm failure)) ++
  (if action.existenceSensitive then [ikProperty "existenceSensitive" (boolText true)] else []) ++
  hungPredicates owner action.inputs action.arguments action.outputFrom action.groups

/-- The nodes of one contract, its own last. -/
def actionNodes (id : Text) (action : ActionSpec) : List Text :=
  let owner := action.contractIri id
  inputNodes owner action.inputs ++ action.groups.map (groupNode owner) ++
    [nodeStatement owner (actionPredicates owner action)]

/-- The nodes behind an endpoint's own. -/
def extraNodes (description : Description) : List Text :=
  inputNodes (endpointIri description.id) description.inputs ++
    description.groups.map (groupNode (endpointIri description.id)) ++
    description.actionSpecs.flatMap (actionNodes description.id)

/-- A description as a Turtle document. -/
def toTurtle (description : Description) : Text :=
  turtleHeading "ik".toList ikNamespace ++
    ("\n\n".toList ++ nodeStatement (endpointIri description.id) (endpointPredicates description) ++
      "\n".toList ++
      (extraNodes description).flatMap fun node => "\n".toList ++ node ++ "\n".toList)

end Documents

end Vocab

section Actions

variable [IriSyntax]

/-- How a match names its door: an IRI, or a template's pattern. -/
def matchNamed (found : ActionMatch) : Text :=
  if (Iri.parse found.endpoint).isSome then ikProperty "endpoint" (bracketed found.endpoint)
  else
    ikProperty "template"
      (quotes ((found.endpoint.replace '\\' "\\\\".toList).replace '"' "\\\"".toList))

def matchPredicates (found : ActionMatch) : List Text :=
  [typeProperty (ikWord "ActionMatch"), matchNamed found,
    ikProperty "contract" (bracketed found.action),
    ikProperty "verb" (quotes (verbName found.verb))] ++
  (found.requires.map fun scope => ikProperty "requires" (scopeTerm scope)) ++
  if 0 < found.missingOptional then
    [ikProperty "missingOptional" (Nat.toDigits 10 found.missingOptional)]
  else []

/-- The Turtle face of the matches. -/
def actionsTurtle (found : List ActionMatch) : Text :=
  turtleHeading "ik".toList ikNamespace ++
    ("\n".toList ++ found.flatMap fun found =>
      "\n".toList ++ nodeStatement found.matchIri (matchPredicates found) ++ "\n".toList)

end Actions

namespace Report

def shaclNamespace : Text := "http://www.w3.org/ns/shacl#".toList

def shProperty (word : String) (objects : Text) : Text :=
  "sh:".toList ++ word.toList ++ ' ' :: objects

def shWord (word : String) : Text := "sh:".toList ++ word.toList

def reportIri : Text := "urn:ikigai:validation:report".toList

/-- A violation as it is reported: its message, the node it is about and the rule. -/
structure Entry where
  message : Text
  path : Option Text
  component : Option Text
deriving DecidableEq, Repr

variable [IriSyntax]

/-- What is wrong with a call: each scope that is lacking, then each rule that is broken. -/
def entries (actionIri : Text) (spec : ActionSpec) (proposed : Text) (capability : Capability) :
    List Entry :=
  ((spec.requires.filter fun scope => !capability.satisfies scope).map fun scope =>
      ⟨"the capability does not grant `".toList ++ scope ++ "`".toList, none, none⟩) ++
    (spec.check (ProposedArgs.parse proposed)).map fun violation =>
      ⟨violation.message, violation.path.map (ViolationPath.nodeIri actionIri),
        some violation.kind.component⟩

def resultSeparator : Text := " ;\n        ".toList

/-- The properties of one result. -/
def resultPredicates (actionIri : Text) (entry : Entry) : List Text :=
  [typeProperty (shWord "ValidationResult"), shProperty "resultSeverity" (shWord "Violation"),
    shProperty "focusNode" (bracketed (escapeIriFragment actionIri))] ++
  (entry.path.toList.map fun path => shProperty "resultPath" (bracketed (escapeIriFragment path))) ++
  (entry.component.toList.map fun component =>
    shProperty "sourceConstraintComponent" (bracketed component)) ++
  [shProperty "resultMessage" (quotes (escapeLiteral entry.message))]

/-- One result, as a node of the report. -/
def result (actionIri : Text) (entry : Entry) : Text :=
  shProperty "result" ("[ ".toList ++ (resultSeparator.intercalate
    (resultPredicates actionIri entry) ++ " ]".toList))

/-- The validation report of a proposed call. -/
def validationReport (actionIri : Text) (spec : ActionSpec) (proposed : Text)
    (capability : Capability) : Text :=
  let entries := entries actionIri spec proposed capability
  turtleHeading "sh".toList shaclNamespace ++ ("\n\n".toList ++
    nodeStatement reportIri
      ([typeProperty (shWord "ValidationReport"),
        shProperty "conforms" (boolText entries.isEmpty)] ++
        entries.map (result actionIri)) ++ "\n".toList)

end Report

end Ikigai
