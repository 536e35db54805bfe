import Ikigai.DeclarationBounds
import Ikigai.MarkedReading

/-!
# Reading a declaration

A document is read as a set of triples, and the triples as one arrangement: the root is the
one typed node that no other refers to, each node states its layer, and what it encloses is
read in turn, a shared node wherever it is used. Whatever is not part of an arrangement is
refused, and so is a triple the walk from the root does not reach.

The Turtle parser is a dependency: it gives the triples it reads and, behind them, its
error. How it shows a term is its own too, and how a text is shown in quotes is the
language's. A property is marked when it is taken; a triple is read when its subject and
predicate are marked.
-/

namespace Ikigai

/-- A subject. -/
inductive RdfNode where
  | named (iri : Text)
  | blank (label : Text)
deriving DecidableEq, Repr

/-- An object. -/
inductive RdfTerm where
  | named (iri : Text)
  | blank (label : Text)
  | literal (value datatype : Text) (language : Option Text)
deriving DecidableEq, Repr

structure RdfTriple where
  subject : RdfNode
  predicate : Text
  object : RdfTerm
deriving DecidableEq, Repr

/-- The parser: the triples of a document and what it says of it where it stops, how it
shows a term, and how a text is shown in quotes. -/
class TurtleSyntax where
  parse : Text → List RdfTriple × Option Text
  shown : RdfTerm → Text
  quoted : Text → Text

/-- A triple about a named node. -/
structure StatedTriple where
  subject : Text
  predicate : Text
  object : RdfTerm
deriving DecidableEq, Repr

namespace Declared

/-- The vocabulary. -/
def ik (word : Text) : Text := "https://ikigai-rs.dev/ns#".toList ++ word

def rdf (word : Text) : Text := "http://www.w3.org/1999/02/22-rdf-syntax-ns#".toList ++ word

def rdfType : Text := rdf "type".toList

def rdfFirst : Text := rdf "first".toList

def rdfRest : Text := rdf "rest".toList

def rdfNil : Text := rdf "nil".toList

def xsd (datatype : Text) : Text := "http://www.w3.org/2001/XMLSchema#".toList ++ datatype

/-- The kinds a space node may have. -/
def spaceKinds : List Text :=
  ["OpaqueSpace".toList, "EndpointSpace".toList, "Fallback".toList, "Mount".toList,
    "Rewrite".toList, "Alias".toList, "Limit".toList, "Confine".toList, "Level".toList,
    "DynamicSpace".toList, "Chain".toList]

def malformed (node reason : Text) : DeclarationError := .malformed (some node) reason

/-- A name of the vocabularies, shortened for a message. -/
def short (iri : Text) : Text :=
  match iri.stripPrefix (ik []) with
  | some word => "ik:".toList ++ word
  | none =>
    match iri.stripPrefix (rdf []) with
    | some word => "rdf:".toList ++ word
    | none => '<' :: iri ++ ['>']

end Declared

open Declared (ik rdfType rdfFirst rdfRest rdfNil xsd malformed short)

/-- The keyword of a kind of match, read. -/
def MatchKind.fromKeyword (keyword : Text) : Option MatchKind :=
  if keyword = "exact".toList then some .exact
  else if keyword = "template".toList then some .template
  else if keyword = "prefix".toList then some .headed
  else if keyword = "custom".toList then some .custom
  else none

/-- The triples of a document. -/
structure DeclarationGraph where
  triples : List StatedTriple

namespace DeclarationGraph

section Parsing

variable [TurtleSyntax]

def blankNode (label : Text) : Text :=
  "a blank node (_:".toList ++ label ++ ") — every node of an arrangement is an IRI".toList

/-- Keep the triples of a document, each once, or refuse a blank node. -/
def gather (triples : List StatedTriple) : List RdfTriple → Except DeclarationError (List StatedTriple)
  | [] => .ok triples
  | ⟨.blank label, _, _⟩ :: _ => .error (.malformed none (blankNode label))
  | ⟨.named subject, _, .blank label⟩ :: _ => .error (malformed subject (blankNode label))
  | ⟨.named subject, predicate, object⟩ :: rest =>
    let stated := triples.any fun triple =>
      triple.subject = subject ∧ triple.predicate = predicate ∧
        TurtleSyntax.shown triple.object = TurtleSyntax.shown object
    gather (if stated then triples else triples ++ [⟨subject, predicate, object⟩]) rest

/-- Parse a document. -/
def parse (turtle : Text) : Except DeclarationError DeclarationGraph :=
  let (read, stopped) := TurtleSyntax.parse turtle
  match gather [] read with
  | .error error => .error error
  | .ok triples =>
    match stopped with
    | some error => .error (.malformed none ("not Turtle: ".toList ++ error))
    | none => .ok ⟨triples⟩

end Parsing

/-- What a reader of the graph does: it refuses, or marks properties of subjects. -/
abbrev Read (α : Type) := MarkedReading (Text × Text) DeclarationError α

/-- The objects of a property. -/
def objects (graph : DeclarationGraph) (subject predicate : Text) : List RdfTerm :=
  graph.triples.filterMap fun triple =>
    if triple.subject = subject ∧ triple.predicate = predicate then some triple.object else none

/-- The names nodes are referred to by. -/
def referenced (graph : DeclarationGraph) : List Text :=
  graph.triples.filterMap fun triple =>
    match triple.object with
    | .named name => if triple.predicate = rdfType then none else some name
    | .blank _ | .literal .. => none

/-- The typed nodes that no other refers to, in order. -/
def roots (graph : DeclarationGraph) : OrderedSet Text :=
  .ofList ((graph.triples.filter fun triple =>
    triple.predicate = rdfType ∧ triple.subject ∉ graph.referenced).map StatedTriple.subject)

/-- The one root. -/
def root (graph : DeclarationGraph) : Except DeclarationError Text :=
  match graph.roots.items with
  | [root] => .ok root
  | [] =>
    .error (.malformed none
      ("no root: no space node that nothing else encloses (an empty document, or every space " ++
        "inside a cycle)").toList)
  | many =>
    .error (.malformed none
      ("more than one root (".toList ++ ", ".toList.intercalate many ++
        "): a declaration is one arrangement".toList))

section Properties

variable (graph : DeclarationGraph)

/-- Every object of a property, which is marked. -/
def take (subject predicate : Text) : Read (List RdfTerm) := do
  MarkedReading.mark (subject, predicate)
  return graph.objects subject predicate

def statedTimes (predicate : Text) (times : Nat) : Text :=
  short predicate ++ " is stated ".toList ++ Nat.toDigits 10 times ++ " times".toList

def one (subject predicate : Text) : Read RdfTerm := do
  match ← graph.take subject predicate with
  | [] => throw (malformed subject (short predicate ++ " is missing".toList))
  | [term] => return term
  | terms => throw (malformed subject (statedTimes predicate terms.length))

def optional (subject predicate : Text) : Read (Option RdfTerm) := do
  match ← graph.take subject predicate with
  | [] => return none
  | [term] => return some term
  | terms => throw (malformed subject (statedTimes predicate terms.length))

/-- Refuse any triple about a subject that is not marked. -/
def noMore [TurtleSyntax] (subject : Text) : Read Unit :=
  MarkedReading.refuseBy fun marks =>
    (graph.triples.find? fun triple =>
      triple.subject = subject ∧ (triple.subject, triple.predicate) ∉ marks).map fun triple =>
        malformed subject (short triple.predicate ++ [' '] ++ TurtleSyntax.shown triple.object ++
          " is not part of an arrangement".toList)

/-- Refuse any triple that was not reached. -/
def allUsed [TurtleSyntax] (marks : List (Text × Text)) : Except DeclarationError Unit :=
  match graph.triples.find? fun triple => (triple.subject, triple.predicate) ∉ marks with
  | some triple =>
    .error (malformed triple.subject (short triple.predicate ++ [' '] ++
      TurtleSyntax.shown triple.object ++
      (" is not reached from the root: every triple of a declaration belongs to its one " ++
        "arrangement").toList))
  | none => .ok ()

end Properties

section Terms

variable [TurtleSyntax]

def iriOf (subject predicate : Text) : RdfTerm → Read Text
  | .named iri => return iri
  | other =>
    throw (malformed subject
      (short predicate ++ " is not an IRI: ".toList ++ TurtleSyntax.shown other))

/-- A literal of a datatype, with no language. -/
def literalOf (subject predicate : Text) (term : RdfTerm) (datatype : Text) : Read Text :=
  let refused := throw (malformed subject
    (short predicate ++ " is not an xsd:".toList ++ datatype ++ " literal: ".toList ++
      TurtleSyntax.shown term))
  match term with
  | .literal value typed none => if typed = xsd datatype then return value else refused
  | _ => refused

variable (graph : DeclarationGraph)

def oneIri (subject predicate : Text) : Read Text := do
  iriOf subject predicate (← graph.one subject predicate)

def oneStr (subject predicate : Text) : Read Text := do
  literalOf subject predicate (← graph.one subject predicate) "string".toList

def strs (subject predicate : Text) : Read (List Text) := do
  (← graph.take subject predicate).mapM fun term =>
    literalOf subject predicate term "string".toList

/-- The distinct IRIs a property names, in order. -/
def iris (subject predicate : Text) : Read (List Text) := do
  let named ← (← graph.take subject predicate).mapM (iriOf subject predicate)
  return (OrderedSet.ofList named).items

/-- An optional property, read by what its object must be. -/
def optionally {α : Type} (subject predicate : Text) (read : RdfTerm → Read α) :
    Read (Option α) := do
  match ← graph.optional subject predicate with
  | none => return none
  | some term => some <$> read term

def optionalStr (subject predicate : Text) : Read (Option Text) :=
  graph.optionally subject predicate fun term => literalOf subject predicate term "string".toList

def optionalIri (subject predicate : Text) : Read (Option Text) :=
  graph.optionally subject predicate (iriOf subject predicate)

/-- A truth value, spelled as it is written. -/
def booleanOf (subject predicate : Text) (term : RdfTerm) : Read Bool := do
  let value ← literalOf subject predicate term "boolean".toList
  if value = "true".toList then return true
  else if value = "false".toList then return false
  else throw (malformed subject (short predicate ++ [' '] ++ value ++ " is not a boolean".toList))

def optionalBoolean (subject predicate : Text) : Read (Option Bool) :=
  graph.optionally subject predicate (booleanOf subject predicate)

/-- Walk the cells of a list. Cells are not met twice, so the walk is over before it has
visited more of them than there are triples. -/
def cells (subject word : Text) : Nat → Text → List Text → List Text → Read (List Text)
  | 0, _, _, members => return members
  | steps + 1, cell, seen, members => do
    if cell = rdfNil then return members
    else if cell ∈ seen then
      throw (malformed subject
        ("ik:".toList ++ word ++ " is a list that loops at <".toList ++ cell ++ ['>']))
    else
      let member ← graph.oneIri cell rdfFirst
      let rest ← graph.oneIri cell rdfRest
      graph.noMore cell
      cells subject word steps rest (cell :: seen) (members ++ [member])

/-- The members of an ordered property. -/
def list (subject word : Text) : Read (List Text) := do
  let cell ← graph.oneIri subject (ik word)
  graph.cells subject word (graph.triples.length + 1) cell [] []

/-- The one kind a node is typed with, among those its position holds. -/
def kind (subject : Text) (expected : List Text) : Read Text := do
  let named ← graph.oneIri subject rdfType
  let refused := throw (malformed subject
    (short named ++ " is not a kind of node this position holds".toList))
  match named.stripPrefix (ik []) with
  | some word => if word ∈ expected then return word else refused
  | none => refused

def matchKind (subject : Text) : Read MatchKind := do
  let keyword ← graph.oneStr subject (ik "matchKind".toList)
  match MatchKind.fromKeyword keyword with
  | some kind => return kind
  | none =>
    throw (malformed subject
      ("ik:matchKind ".toList ++ TurtleSyntax.quoted keyword ++ " is not a kind of match".toList))

end Terms

section Nodes

variable [TurtleSyntax] (graph : DeclarationGraph)

/-- A door, with the name of the corridor it is confined to. -/
def door (subject : Text) : Read (DeclaredDoor Text) := do
  let _ ← graph.kind subject ["Door".toList]
  let pattern ← graph.oneStr subject (ik "pattern".toList)
  let kind ← graph.matchKind subject
  let endpoint ← graph.oneStr subject (ik "endpointName".toList)
  let existenceSensitive ← graph.optionalBoolean subject (ik "existenceSensitive".toList)
  let confined ← graph.optionalIri subject (ik "confinedTo".toList)
  if confined.any fun corridor => corridor.startsWith skolemPrefix then
    throw (malformed subject
      "a confined corridor is named by its confinement, never a skolem".toList)
  else
    graph.noMore subject
    return ⟨⟨pattern, kind⟩, endpoint, confined, existenceSensitive.getD false⟩

/-- The source a declared input states, if it states one. -/
def inputSource (subject : Text) : Read Unit := do
  match ← graph.optionalStr subject (ik "source".toList) with
  | none => return ()
  | some source =>
    if source = "argument".toList then return ()
    else throw (malformed subject
      ("ik:source ".toList ++ TurtleSyntax.quoted source ++
        (": a rule's declared input is an argument (its captures are its " ++
          "bindings)").toList))

/-- A declared input. -/
def input (subject : Text) : Read ArgSpec := do
  let name ← graph.oneStr subject (ik "inputName".toList)
  graph.inputSource subject
  let summary ← graph.optionalStr subject (ik "summary".toList)
  let «class» ← graph.optionalIri subject (ik "class".toList)
  let default ← graph.optionalStr subject (ik "default".toList)
  let oneOf ← graph.strs subject (ik "oneOf".toList)
  let enumerated ← graph.optionally subject (ik "enumerated".toList) fun term =>
    literalOf subject (ik "enumerated".toList) term "boolean".toList
  let required ← graph.optionalBoolean subject (ik "required".toList)
  graph.noMore subject
  return {
    name, «class», default, oneOf
    summary := summary.getD []
    enumerated := !oneOf.isEmpty || enumerated = some "true".toList
    required := required.getD default.isNone }

/-- The verb a word names. -/
def verbOf (subject word : Text) : Read Verb :=
  if word = "Source".toList then return .source
  else if word = "Sink".toList then return .sink
  else if word = "Exists".toList then return .exists
  else if word = "Delete".toList then return .delete
  else if word = "Meta".toList then return .«meta»
  else throw (malformed subject
    ("ik:verb ".toList ++ TurtleSyntax.quoted word ++ " is not a verb".toList))

variable [IriSyntax]

/-- How a fixed argument is given: in exactly one of four ways. -/
def fixedValue (subject : Text) : Read FixedValue := do
  let value ← graph.optional subject (ik "value".toList)
  let reference ← graph.optional subject (ik "ref".toList)
  let capture ← graph.optional subject (ik "capture".toList)
  let referenceTemplate ← graph.optional subject (ik "refTemplate".toList)
  match value, reference, capture, referenceTemplate with
  | some term, none, none, none =>
    .value <$> literalOf subject (ik "value".toList) term "string".toList
  | none, some term, none, none =>
    let iri ← iriOf subject (ik "ref".toList) term
    match Iri.parse iri with
    | some iri => return .reference iri
    | none =>
      throw (malformed subject ("ik:ref is not an IRI: ".toList ++ IriSyntax.refusal iri))
  | none, none, some term, none =>
    .capture <$> literalOf subject (ik "capture".toList) term "string".toList
  | none, none, none, some term =>
    let text ← literalOf subject (ik "refTemplate".toList) term "string".toList
    match UriTemplate.parse text with
    | .ok template => return .referenceTemplate template
    | .error error => throw (malformed subject ("ik:refTemplate: ".toList ++ error.text text))
  | _, _, _, _ =>
    throw (malformed subject
      ("an argument a rule fixes has exactly one of ik:value, ik:ref, ik:refTemplate and " ++
        "ik:capture").toList)

/-- A fixed argument. -/
def argument (subject : Text) : Read FixedArgument := do
  let _ ← graph.kind subject ["Argument".toList]
  let name ← graph.oneStr subject (ik "inputName".toList)
  let value ← graph.fixedValue subject
  graph.noMore subject
  return ⟨name, value⟩

/-- The kind of a rule, and whether it is a template rule. -/
def ruleKind (subject : Text) : Read (RuleKind × Bool) := do
  let word ← graph.oneStr subject (ik "ruleKind".toList)
  if word = "exact".toList then return (.exact, false)
  else if word = "prefix".toList then return (.headed, false)
  else if word = "template".toList then return (.exact, true)
  else throw (malformed subject
    ("ik:ruleKind ".toList ++ TurtleSyntax.quoted word ++
      " is not exact, prefix or template".toList))

/-- Where a rule resolves. -/
def place (subject : Text) : Read ResolveAt := do
  match ← graph.optionalStr subject (ik "resolveAt".toList) with
  | none => return .child
  | some word =>
    if word = "child".toList then return .child
    else if word = "root".toList then return .root
    else throw (malformed subject
      ("ik:resolveAt ".toList ++ TurtleSyntax.quoted word ++ " is not child or root".toList))

/-- One rule of a table, whole: its arguments and inputs are kept in name order. -/
def rule (subject : Text) : Read DeclaredRule := do
  let _ ← graph.kind subject ["RewriteRule".toList]
  let (kind, template) ← graph.ruleKind subject
  let source ← graph.oneStr subject (ik "logical".toList)
  let target ← graph.oneStr subject (ik "canonical".toList)
  let resolveAt ← graph.place subject
  let verb ← graph.optionally subject (ik "verb".toList) fun term => do
    verbOf subject (← literalOf subject (ik "verb".toList) term "string".toList)
  let fixes ← (← graph.iris subject (ik "fixes".toList)).mapM graph.argument
  let inputs ← (← graph.iris subject (ik "input".toList)).mapM graph.input
  graph.noMore subject
  return {
    kind, source, target, resolveAt, template, verb
    fixes := fixes.insertionSort fun first second => first.name ≤ second.name
    inputs := inputs.insertionSort fun first second => first.name ≤ second.name }

/-- The name of one rule of a table. -/
def ruleName (subject : Text) (number : Nat) : Text :=
  subject ++ ":rule:".toList ++ Nat.toDigits 10 number

/-- The rules of a table, in the order of the numbers in their names. -/
def rules (subject : Text) (named : List Text) : Read (List DeclaredRule) :=
  (List.range named.length).mapM fun index => do
    if ruleName subject (index + 1) ∈ named then graph.rule (ruleName subject (index + 1))
    else throw (malformed subject
      ("its ik:rewrites are not <".toList ++ ruleName subject 1 ++ "> … <".toList ++
        ruleName subject named.length ++
        "> (the number in a rule's IRI is its place in the table)".toList))

/-- How many hops a table allows. -/
def maxHops (subject : Text) : Read Nat := do
  let term ← graph.one subject (ik "maxHops".toList)
  let hops ← literalOf subject (ik "maxHops".toList) term "integer".toList
  match hops.parseWord.filter (1 ≤ ·) with
  | some count => return count
  | none =>
    throw (malformed subject
      ("ik:maxHops ".toList ++ hops ++ " is not a positive count".toList))

/-- The doors of a leaf: their patterns are stated twice, as a set and in order. -/
def leaf (subject : Text) : Read (DeclaredKind Text) := do
  let flat ← graph.strs subject (ik "pattern".toList)
  let doors ← (← graph.list subject "doors".toList).mapM graph.door
  if OrderedSet.ofList flat = OrderedSet.ofList (doors.map fun door => door.pattern) then
    return .endpointSpace doors
  else throw (malformed subject
    "its ik:pattern set and the patterns of its ik:doors disagree".toList)

/-- The identity a node claims: none under the prefix of anonymous nodes. -/
def id (subject : Text) : Read (Option Iri) :=
  if subject.startsWith skolemPrefix then return none
  else
    match Iri.parse subject with
    | some iri => return some iri
    | none =>
      throw (malformed subject
        ("not an IRI a space can claim: ".toList ++ IriSyntax.refusal subject))

/-- What a kind carries, and what it encloses besides its corridors. -/
def carried (subject : Text) (id : Option Iri) (word : Text) :
    Read (DeclaredKind Text × List Text) := do
  if word = "OpaqueSpace".toList then return (.hidden, [])
  else if word = "EndpointSpace".toList then return (← graph.leaf subject, [])
  else if word = "Fallback".toList then return (.fallback, ← graph.list subject "layers".toList)
  else if word = "Chain".toList then
    let severed ← booleanOf subject (ik "severed".toList)
      (← graph.one subject (ik "severed".toList))
    return (.chain severed, ← graph.list subject "layers".toList)
  else if word = "Mount".toList then
    let head ← graph.oneStr subject (ik "prefix".toList)
    return (.mount head, [← graph.oneIri subject (ik "space".toList)])
  else if word = "Rewrite".toList then
    return (.rewrite, [← graph.oneIri subject (ik "space".toList)])
  else if word = "Confine".toList then
    return (.confine, [← graph.oneIri subject (ik "space".toList)])
  else if word = "Alias".toList then
    let hops ← graph.maxHops subject
    let rules ← graph.rules subject (← graph.iris subject (ik "rewrites".toList))
    return (.«alias» rules hops, [← graph.oneIri subject (ik "space".toList)])
  else if word = "Limit".toList then
    let family ← graph.oneStr subject (ik "family".toList)
    return (.limit family (← graph.matchKind subject), [])
  else if word = "Level".toList then
    if id.isNone then
      throw (malformed subject "a level is always named, never a skolem".toList)
    else
      let seals ← graph.strs subject (ik "seals".toList)
      let home ← graph.optionalStr subject (ik "namespace".toList)
      return (.level seals home, [← graph.oneIri subject (ik "space".toList)])
  else if word = "DynamicSpace".toList then
    if id.isNone then
      throw (malformed subject "a dynamic space is always named, never a skolem".toList)
    else
      let declaration ← graph.oneIri subject (ik "declaration".toList)
      match Iri.parse declaration with
      | some iri => return (.dynamic iri, [← graph.oneIri subject (ik "space".toList)])
      | none =>
        throw (malformed subject
          ("ik:declaration is not an IRI: ".toList ++ IriSyntax.refusal declaration))
  else throw (malformed subject ("ik:".toList ++ word ++ " is not a space kind".toList))

/-- Everything a node states about itself, over the names of what it encloses. -/
def shallow (subject : Text) : Read (DeclaredLayer Text) := do
  let word ← graph.kind subject Declared.spaceKinds
  let id ← DeclarationGraph.id subject
  let (kind, children) ← graph.carried subject id word
  graph.noMore subject
  return ⟨id, kind, children⟩

end Nodes

end DeclarationGraph

namespace DeclaredLayer

variable {τ υ : Type}

/-- Confine doors to corridors, in door order. -/
def fillDoors : List (DeclaredDoor τ) → List υ → List (DeclaredDoor υ)
  | [], _ => []
  | door :: rest, spaces =>
    match door.confined, spaces with
    | some _, space :: spaces =>
      ⟨door.toDoor, door.endpoint, some space, door.existenceSensitive⟩ :: fillDoors rest spaces
    | _, _ =>
      ⟨door.toDoor, door.endpoint, none, door.existenceSensitive⟩ :: fillDoors rest spaces

/-- A layer over what it encloses, its children and then its corridors. -/
def fill (layer : DeclaredLayer τ) (spaces : List υ) : DeclaredLayer υ where
  id := layer.id
  kind := layer.kind.withDoors (fillDoors layer.kind.doors (spaces.drop layer.children.length))
  children := spaces.take layer.children.length

end DeclaredLayer

/-- What the walk has charged, and what it has marked. -/
structure DeclarationWalk where
  budget : DeclarationBudget := {}
  marks : List (Text × Text) := []

namespace DeclarationGraph

/-- Read nodes in order, up to the first that is refused. -/
def below (read : Text → DeclarationWalk → Except DeclarationError DeclaredSpace × DeclarationWalk) :
    List Text → DeclarationWalk → Except DeclarationError (List DeclaredSpace) × DeclarationWalk
  | [], state => (.ok [], state)
  | subject :: rest, state =>
    match read subject state with
    | (.error error, after) => (.error error, after)
    | (.ok space, after) =>
      match below read rest after with
      | (.error error, last) => (.error error, last)
      | (.ok spaces, last) => (.ok (space :: spaces), last)

variable [TurtleSyntax] [IriSyntax] (graph : DeclarationGraph)

/-- Read a node and all that it encloses, with the depth that is left, under the nodes that
enclose it. -/
def node : Nat → List Text → Text → DeclarationWalk →
    Except DeclarationError DeclaredSpace × DeclarationWalk
  | 0, path, subject, state =>
    (.error (if subject ∈ path then malformed subject "a cycle: the node encloses itself".toList
      else tooLarge .depth subject), state)
  | room + 1, path, subject, state =>
    if subject ∈ path then
      (.error (malformed subject "a cycle: the node encloses itself".toList), state)
    else
      match (graph.shallow subject).run state.marks with
      | .error error => (.error error, state)
      | .ok (layer, marks) =>
        let charged : DeclarationWalk := ⟨state.budget.add layer, marks⟩
        match charged.budget.check subject with
        | .error error => (.error error, charged)
        | .ok () =>
          match below (node room (path ++ [subject])) layer.enclosed charged with
          | (.error error, after) => (.error error, after)
          | (.ok spaces, after) => (.ok (.node (layer.fill spaces)), after)

/-- Read the tree at the root, and refuse any triple that was not reached. -/
def tree (root : Text) : Except DeclarationError DeclaredSpace × DeclarationWalk :=
  match graph.node DeclarationBound.depth.limit [] root {} with
  | (.error error, after) => (.error error, after)
  | (.ok tree, after) => ((graph.allUsed after.marks).map fun _ => tree, after)

end DeclarationGraph

namespace DeclaredSpace

variable [TurtleSyntax] [IriSyntax]

/-- Read a document, with the state the walk ends in. -/
def walkTurtle (turtle : Text) : Except DeclarationError DeclaredSpace × DeclarationWalk :=
  match DeclarationGraph.parse turtle with
  | .error error => (.error error, {})
  | .ok graph =>
    match graph.root with
    | .error error => (.error error, {})
    | .ok root => graph.tree root

/-- Parse a declaration. -/
def fromTurtle (turtle : Text) : Except DeclarationError DeclaredSpace := (walkTurtle turtle).1

end DeclaredSpace

end Ikigai
