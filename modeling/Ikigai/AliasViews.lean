import Ikigai.Check
import Ikigai.Forwarding
import Ikigai.IssuePath
import Ikigai.StreamRange
import Ikigai.TemplateMatching
import Ikigai.Utf8

/-!
# Views

What a chain of rules that resolves at the root comes to. The chain is replayed, so that what a
template rule captures is known, and each named request of it becomes a part. A call through the
view is merged with the parts in order, what a part fixes first and then what it declares, and is
issued once at the name the chain ended in. A refusal of a part ends the call.
-/

namespace Ikigai

/-- The path of an IRI's text, of whose parts only the places are read (the parser's
`parse_unchecked`). -/
class IriPath where
  path : Text → Text

namespace Text

def replacement : Char := '\uFFFD'

/-- `String::from_utf8_lossy`, with some bytes left to read at most. -/
def lossy : Nat → List UInt8 → Text
  | 0, _ => []
  | _ + 1, [] => []
  | left + 1, first :: bytes =>
    match Utf8.readChar first bytes with
    | .whole rest =>
      (ofBytes ((first :: bytes).take (bytes.length + 1 - rest.length))).getD [] ++ lossy left rest
    | .ended => [replacement]
    | .invalid length => replacement :: lossy left ((first :: bytes).drop length)

/-- `String::from_utf8_lossy`: what is no character is read as the replacement character. -/
def fromUtf8Lossy (bytes : List UInt8) : Text := lossy bytes.length bytes

end Text

/-- Put an argument at its name's place. -/
def putArgument (args : List (Text × ArgRef)) (name : Text) (value : ArgRef) :
    List (Text × ArgRef) :=
  args.takeWhile (fun argument => argument.1 < name) ++
    (name, value) :: args.dropWhile fun argument => argument.1 < name

/-- A value of a declared input against the input's enumeration and its class. A value that is not
given inline is the target's to read, and an enumerated input refuses it. -/
def heldToContract (input : ArgSpec) : ArgRef → Except Error Unit
  | .inline bytes =>
    match input.checkValue (Text.fromUtf8Lossy bytes) with
    | some violation => .error (.invalidArgument input.name violation.message)
    | none => .ok ()
  | .reference _ | .content _ =>
    if input.isEnumerated then
      .error (.invalidArgument input.name
        (ticked input.name ++ (" takes an enumerated value, which cannot be checked when given " ++
          "by reference or as stored content: give the value itself").toList))
    else .ok ()

section References

variable [IriSyntax] [IriPath]

/-- Whether a segment of a path is a dot segment once its captures are in. -/
def dotSegment (captures : List (Text × Text)) (segment : Text) : Except Text Bool :=
  if '\x7b' ∈ segment then
    match UriTemplate.parse segment with
    | .error error => .error (error.text segment)
    | .ok template =>
      .ok ((template.expandEncoded captures).any fun text =>
        text = ".".toList || text = "..".toList)
  else .ok false

/-- The first segment that may not stand in a path. -/
def checkSegments (captures : List (Text × Text)) : List Text → Except Text Unit
  | [] => .ok ()
  | segment :: rest =>
    match dotSegment captures segment with
    | .error detail => .error detail
    | .ok true => .error "reference template capture forms a dot path segment".toList
    | .ok false => checkSegments captures rest

/-- The name a reference template is with what a rule captured. -/
def referenceFromTemplate (template : UriTemplate) (captures : List (Text × Text)) :
    Except Text Iri :=
  match template.variableNames.find? fun var =>
    (UriTemplate.bound captures var).all List.isEmpty with
  | some var => .error ("reference template capture \x7b".toList ++ var ++ "\x7d is empty".toList)
  | none => do
    checkSegments captures ((IriPath.path template.source).splitOn '/')
    match template.expandEncoded captures with
    | none => .error "reference template capture is missing".toList
    | some expanded =>
      match Iri.parse expanded with
      | some name => .ok name
      | none =>
        .error ("expanded reference template is not an IRI: ".toList ++ IriSyntax.refusal expanded)

namespace FixedValue

/-- What is sent for a fixed argument, with what its rule captured. -/
def sent (captures : List (Text × Text)) : FixedValue → Except Text ArgRef
  | .value text => .ok (.inline text.asBytes)
  | .reference name => .ok (.reference name)
  | .referenceTemplate template => (referenceFromTemplate template captures).map .reference
  | .capture captured => .ok (.inline ((UriTemplate.bound captures captured).getD []).asBytes)

/-- How a refusal shows it. -/
def shown (captures : List (Text × Text)) : FixedValue → Text
  | .value text => text
  | .reference name => FixedValue.text (.reference name)
  | .referenceTemplate template => FixedValue.text (.referenceTemplate template)
  | .capture captured => (UriTemplate.bound captures captured).getD []

/-- Whether what it takes of the rule's captures is there. -/
def isCaptured (captures : List (Text × Text)) : FixedValue → Bool
  | .capture captured => (UriTemplate.bound captures captured).isSome
  | .value _ | .reference _ | .referenceTemplate _ => true

end FixedValue

end References

/-- An argument a part fixes: the value sent and how a refusal shows it. -/
structure Binding where
  name : Text
  value : Except Text ArgRef
  shown : Text

/-- One named request of a chain, with its captures settled. -/
structure BoundPart where
  name : Iri
  verb : Option Verb
  fixed : List Binding
  inputs : List ArgSpec

structure ViewEndpoint where
  target : Iri
  parts : List BoundPart
  forward : Forward

section Replaying

variable [IriSyntax] [IriPath]

/-- A fixed argument as a later rule of a chain states it, whose captures are of a name that the
caller never wrote. -/
def FixedArgument.settled (captures : List (Text × Text)) (argument : FixedArgument) :
    FixedArgument :=
  match argument.value with
  | .capture captured =>
    { argument with value := .value ((UriTemplate.bound captures captured).getD []) }
  | .referenceTemplate template =>
    match referenceFromTemplate template captures with
    | .ok name => { argument with value := .reference name }
    | .error _ => argument
  | .value _ | .reference _ => argument

/-- Declare an input, unless one of its name is declared. -/
def Forward.declareFirst (inputs : List ArgSpec) (input : ArgSpec) : List ArgSpec :=
  if inputs.any fun declared => declared.name = input.name then inputs else inputs ++ [input]

/-- What a forward gains by one named request of the chain. -/
def Forward.through (forward : Forward) (place : Nat) (rule : AliasRule)
    (captures : List (Text × Text)) : Forward :=
  { forward with
    verb := forward.verb <|> rule.request.verb
    fixed := forward.fixed ++ rule.request.fixes.map fun argument =>
      if place = 0 then argument else argument.settled captures
    inputs := rule.request.inputs.foldl Forward.declareFirst forward.inputs }

/-- The part a named request is under the name it matched. -/
def AliasRule.boundPart (rule : AliasRule) (name : Iri) (captures : List (Text × Text)) :
    BoundPart where
  name := name
  verb := rule.request.verb
  fixed := rule.request.fixes.map fun argument =>
    ⟨argument.name, argument.value.sent captures, argument.value.shown captures⟩
  inputs := rule.request.inputs

/-- Whether the rule captured everything it fixes. -/
def AliasRule.capturesFixes (rule : AliasRule) (captures : List (Text × Text)) : Bool :=
  rule.request.fixes.all fun argument => argument.value.isCaptured captures

namespace AliasTable

/-- Replay the rules of a chain from a place on. -/
def replay (table : AliasTable) :
    Nat → List Nat → Iri → List BoundPart → Forward → Option ViewEndpoint
  | _, [], current, parts, forward => some ⟨current, parts, forward⟩
  | place, index :: rest, current, parts, forward => do
    let rule ← table.rules[index]?
    let (next, captures) ← rule.applyCapturing current
    if rule.isNamedRequest then
      if rule.capturesFixes captures then
        let next ← Iri.parse next
        table.replay (place + 1) rest next (parts ++ [rule.boundPart current captures])
          (forward.through place rule captures)
      else none
    else
      let next ← Iri.parse next
      table.replay (place + 1) rest next parts forward

/-- The view a chain of a name resolves to: the name it ended in and each named request it passed
through. -/
def view (table : AliasTable) (logical : Iri) (hop : AliasHop) : Option ViewEndpoint := do
  let index ← hop.rules.head?
  let first ← table.rules[index]?
  let forward : Forward :=
    { name := first.source
      target := hop.canonical
      captures := (first.request.template.map UriTemplate.variableNames).getD [] }
  let view ← table.replay 0 hop.rules logical [] forward
  if view.target = hop.canonical then some view else none

end AliasTable

end Replaying

namespace BoundPart

def unsupported (part : BoundPart) (bound verb : Verb) : Error :=
  .unsupported (some verb)
    ("<".toList ++ part.name ++ "> is a named request for ".toList ++ bound.name ++
      ": it answers ".toList ++ bound.name ++ ", Exists and Meta".toList)

/-- Refuse a verb that is not the part's. -/
def checkVerb (part : BoundPart) (verb : Verb) : Except Error Unit :=
  match part.verb with
  | none => .ok ()
  | some bound =>
    if verb ≠ bound ∧ verb ≠ .exists then .error (part.unsupported bound verb) else .ok ()

/-- Merge one fixed argument: a caller who gives it is refused. -/
def fix (holder : Iri) (args : List (Text × ArgRef)) (binding : Binding) :
    Except Error (List (Text × ArgRef)) :=
  if args.any fun argument => argument.1 = binding.name then
    .error (.invalidArgument binding.name
      ("fixed by <".toList ++ holder ++ "> to ".toList ++ binding.shown))
  else
    match binding.value with
    | .error detail => .error (.invalidArgument binding.name detail)
    | .ok value => .ok (putArgument args binding.name value)

/-- The arguments with an input's default, unless the input is given. -/
def withDefault (args : List (Text × ArgRef)) (input : ArgSpec) : List (Text × ArgRef) :=
  match input.default with
  | some default => fillArgument args input.name default
  | none => args

/-- Fill in an input's default, and hold what the input is to its contract. -/
def declare (args : List (Text × ArgRef)) (input : ArgSpec) :
    Except Error (List (Text × ArgRef)) :=
  match argNamed (withDefault args input) input.name with
  | none => .ok (withDefault args input)
  | some value => (heldToContract input value).map fun _ => withDefault args input

/-- Merge the part into a call's arguments. -/
def merge (part : BoundPart) (verb : Verb) (args : List (Text × ArgRef)) :
    Except Error (List (Text × ArgRef)) := do
  part.checkVerb verb
  let args ← part.fixed.foldlM (fix part.name) args
  part.inputs.foldlM declare args

end BoundPart

/-- The request a view issues for a call. -/
def ViewEndpoint.forwarded (view : ViewEndpoint) (request : Request) : Except Error Request := do
  let args ← view.parts.foldlM (fun args part => part.merge request.verb args) request.args
  return { request with target := view.target, args := args }

/-- What a view's own contract says of it. -/
def ViewEndpoint.summary (view : ViewEndpoint) : Text :=
  let fixed := (view.parts.flatMap BoundPart.fixed).map fun binding =>
    binding.name ++ '=' :: binding.shown
  "Forwards to <".toList ++ view.target ++ ">".toList ++
    (if fixed.isEmpty then [] else " with ".toList ++ [' '].intercalate fixed) ++
    (", resolved from the root under the caller's own capability (an ik:RewriteRule with " ++
      "ik:resolveAt \"root\").").toList

namespace AliasTable

variable [IriSyntax] [IriPath]

/-- The failure of an overlay whose chain did not replay. -/
def notReplayed (logical : Iri) : Error :=
  .endpoint ("alias: a named request's chain did not replay (".toList ++ logical ++ ")".toList)

/-- What a call through a chain issues: one request, or a refusal. -/
def forwardThrough (table : AliasTable) (hop : AliasHop) (request : Request) :
    Except Error Request :=
  match table.view request.target hop with
  | some view => view.forwarded request
  | none => .error (notReplayed request.target)

end AliasTable

end Ikigai
