import Ikigai.Description
import Ikigai.Hashing
import Ikigai.IriText

/-!
# Contracts by their content

A contract is named by its endpoint's id, its verb and the digest of a canonical form. The
form is chosen by content: the second carries what the first cannot, and each opens with a
tag of its own. Whatever is a set is fed sorted and once, so the order something was
declared in is not part of it.
-/

namespace Ikigai

/-- BLAKE3, all of its digest. -/
class ContentHash where
  digest : List UInt8 → Vector UInt8 32

/-- The content address a contract IRI carries. -/
structure ContractDigest where
  bytes : Vector UInt8 32
deriving DecidableEq

def lowerHexDigit (digit : Nat) : Char :=
  if digit < 10 then Char.ofNat (0x30 + digit) else Char.ofNat (0x57 + digit)

def lowerHex (byte : UInt8) : Text :=
  [lowerHexDigit (byte.toNat / 16), lowerHexDigit (byte.toNat % 16)]

def ContractDigest.text (digest : ContractDigest) : Text :=
  "b3:".toList ++ digest.bytes.toList.flatMap lowerHex

def matchPrefix : Text := "urn:ikigai:match:".toList

def contractPrefix : Text := "urn:ikigai:contract:".toList

def contractForm : Text := "ikigai:contract:v1".toList

def contractFormV2 : Text := "ikigai:contract:v2".toList

/-- A verb's name, as the IRIs spell it. -/
def verbSegment : Verb → Text
  | .source => "source".toList
  | .sink => "sink".toList
  | .exists => "exists".toList
  | .delete => "delete".toList
  | .«meta» => "meta".toList

def FailureClass.word : FailureClass → Text
  | .transient => "transient".toList
  | .retryAfter => "retry-after".toList
  | .overBudget => "over-budget".toList
  | .denied => "denied".toList
  | .refused => "refused".toList
  | .permanent => "permanent".toList
  | .unknown => "unknown".toList

/-- One door and verb. -/
def matchIri (verb : Verb) (pattern : Text) : Text :=
  matchPrefix ++ verbSegment verb ++ ":".toList ++ encodeName pattern

def contractIriOf (endpointId : Text) (verb : Verb) (digest : ContractDigest) : Text :=
  contractPrefix ++ encodeName endpointId ++ ":".toList ++ verbSegment verb ++ ":".toList ++
    digest.text

open Hashing

namespace ArgSpec

/-- Whether an input says something that the first form cannot carry. -/
def usesV2 (input : ArgSpec) : Bool :=
  !input.needs.isEmpty || input.list.isSome || !input.values.isEmpty || !input.examples.isEmpty ||
    (input.isEnumerated && input.oneOf.isEmpty) || input.readsBody || input.fixed.isSome

/-- An input with its values as a set, and its enumeration as what it means: inputs are
compared that way. -/
def canonicalInput (input : ArgSpec) : ArgSpec :=
  { input with
    oneOf := (OrderedSet.ofList input.oneOf).items
    enumerated := input.isEnumerated }

/-- Inputs in the order of what the first form feeds of them. -/
def keyLe (left right : ArgSpec) : Bool :=
  ((compare left.name right.name).then <| (compare left.summary right.summary).then <|
    (compare left.required right.required).then <|
    (compare (left.source = .binding : Bool) (right.source = .binding : Bool)).then <|
    (compare left.class right.class).then <| (compare left.default right.default).then <|
    compare left.oneOf right.oneOf) != .gt

def sourceByte : InputSource → UInt8
  | .argument => 0
  | .binding => 1

/-- What the first form feeds of one input. -/
def feedV1 (input : ArgSpec) : List UInt8 :=
  feedStr input.name ++ feedStr input.summary ++ feedU8 (if input.required then 1 else 0) ++
    feedU8 (sourceByte input.source) ++ feedOption input.class ++ feedOption input.default ++
    feedSet input.oneOf

/-- What the second form feeds of one input: as an item of its own. -/
def feedV2 (input : ArgSpec) : List UInt8 :=
  feedStr input.name ++ feedStr input.summary ++ feedU8 (if input.required then 1 else 0) ++
    feedU8 (sourceByte input.source) ++ feedOption input.class ++ feedOption input.default ++
    feedSet input.oneOf ++ feedSet input.needs ++ feedOption (input.list.map ListSeparator.word) ++
    (feedU64 input.values.length ++ input.values.flatMap fun value =>
      feedStr value.1 ++ feedStr value.2.summary ++ feedSet value.2.tags ++
        feedSet value.2.needs) ++
    feedU8 (if input.isEnumerated && input.oneOf.isEmpty then 1 else 0) ++ feedSet input.examples

end ArgSpec

/-- `Vec::dedup`: of equal neighbours, the first. -/
def dropRepeats {α : Type} [DecidableEq α] : List α → List α
  | [] => []
  | [item] => [item]
  | item :: other :: rest =>
    if item = other then dropRepeats (item :: rest) else item :: dropRepeats (other :: rest)
termination_by items => items.length

def InputGroup.feedV2 (group : InputGroup) : List UInt8 :=
  feedStr group.kind.word ++ feedSet group.members ++ feedOption group.pipe

def Arguments.feedV2 : Arguments → List UInt8
  | .closed => feedU8 0
  | .open summary => feedU8 1 ++ feedStr summary
  | .envelope carrier => feedU8 2 ++ feedStr carrier

def feedOutputFrom : Option OutputFrom → List UInt8
  | none => feedU8 0
  | some (.input name) => feedU8 1 ++ feedStr name
  | some .origin => feedU8 2

def feedFailures : Option (List FailureClass) → List UInt8
  | none => []
  | some classes => feedU8 1 ++ feedItems (classes.map fun failure => feedStr failure.word)

namespace ActionSpec

def usesV2 (spec : ActionSpec) : Bool :=
  decide (spec.failures ≠ .unstated) || spec.existenceSensitive || !spec.groups.isEmpty ||
    !spec.arguments.isClosed || spec.outputFrom.isSome || spec.inputs.any ArgSpec.usesV2

/-- The first form's inputs: sorted, each once. -/
def inputsV1 (spec : ActionSpec) : List ArgSpec :=
  dropRepeats ((spec.inputs.map ArgSpec.canonicalInput).mergeSort ArgSpec.keyLe)

def feedV1 (spec : ActionSpec) (endpointId : Text) : List UInt8 :=
  feedStr contractForm ++ feedStr endpointId ++ feedStr (verbSegment spec.verb) ++
    feedStr spec.summary ++ feedU64 spec.inputsV1.length ++
    spec.inputsV1.flatMap ArgSpec.feedV1 ++ feedSet spec.outputs ++ feedSet spec.requires

/-- The names of the inputs that are read as a body. -/
def readers (spec : ActionSpec) : List Text :=
  (spec.inputs.filter ArgSpec.readsBody).map ArgSpec.name

/-- The inputs a named request fixes: each name, a NUL and its value. -/
def fixedPairs (spec : ActionSpec) : List Text :=
  spec.inputs.filterMap fun input => input.fixed.map fun value => input.name ++ '\x00' :: value

/-- What is fed only when there is something of it, each part behind its own tag. -/
def feedTail (spec : ActionSpec) : List UInt8 :=
  feedFailures spec.failures.classes ++
    (if spec.existenceSensitive then feedU8 2 else []) ++
    (if spec.readers.isEmpty then [] else feedU8 3 ++ feedSet spec.readers) ++
    (if spec.fixedPairs.isEmpty then [] else feedU8 4 ++ feedSet spec.fixedPairs)

def feedV2 (spec : ActionSpec) (endpointId : Text) : List UInt8 :=
  feedStr contractFormV2 ++ feedStr endpointId ++ feedStr (verbSegment spec.verb) ++
    feedStr spec.summary ++ feedItems (spec.inputs.map ArgSpec.feedV2) ++ feedSet spec.outputs ++
    feedSet spec.requires ++ feedItems (spec.groups.map InputGroup.feedV2) ++
    spec.arguments.feedV2 ++ feedOutputFrom spec.outputFrom ++ spec.feedTail

/-- What a contract's digest is taken of. -/
def contractBytes (spec : ActionSpec) (endpointId : Text) : List UInt8 :=
  if spec.usesV2 then spec.feedV2 endpointId else spec.feedV1 endpointId

variable [ContentHash]

def contractId (spec : ActionSpec) (endpointId : Text) : ContractDigest :=
  ⟨ContentHash.digest (spec.contractBytes endpointId)⟩

/-- This verb's contract IRI. -/
def contractIri (spec : ActionSpec) (endpointId : Text) : Text :=
  contractIriOf endpointId spec.verb (spec.contractId endpointId)

end ActionSpec

end Ikigai
