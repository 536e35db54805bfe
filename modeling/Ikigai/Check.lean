import Ikigai.Capability
import Ikigai.Contract

/-!
# The one checker

An action's contract applied to a proposed set of named arguments: every rule the call
breaks, in a stable order. The checker is a function of the contract and the arguments
alone.
-/

namespace Ikigai

namespace Text

/-- `str::replace` of one character. -/
def replace (text : Text) (old : Char) (new : Text) : Text :=
  text.flatMap fun c => if c = old then new else [c]

/-- `str::parse` for a signed machine word: an optional sign, then decimal digits. -/
def parseSigned (text : Text) : Option Int :=
  let (negative, digits) :=
    match text with
    | '-' :: digits => (true, digits)
    | '+' :: digits => (false, digits)
    | digits => (false, digits)
  if digits.isEmpty || !digits.all Char.isDigit then none
  else
    let size := Nat.ofDigitChars 10 digits 0
    if negative then if size ≤ 2 ^ 63 then some (-size) else none
    else if size < 2 ^ 63 then some size else none

end Text

/-- Each of some items once, in the order they are first seen. -/
def firstSeen (items : List Text) : List Text :=
  items.foldl (fun seen item => if item ∈ seen then seen else seen ++ [item]) []

namespace ListSeparator

/-- The character repeats are joined with. -/
def canonical : ListSeparator → Char
  | .comma | .commaOrWhitespace => ','
  | .whitespace => ' '
  | .newline => '\n'

/-- The items of a value, empty ones dropped. -/
def split (separator : ListSeparator) (value : Text) : List Text :=
  let items :=
    match separator with
    | .comma => (value.splitOnP (· = ',')).map Text.trim
    | .whitespace => Text.splitWhitespace value
    | .commaOrWhitespace => value.splitOnP fun c => c = ',' || Text.isWhitespace c
    | .newline => (Text.lines value).map Text.trim
  items.filter fun item => !item.isEmpty

def join (separator : ListSeparator) (items : List Text) : Text :=
  [separator.canonical].intercalate items

end ListSeparator

/-- Named arguments in the order they were given, repeats kept. -/
structure ProposedArgs where
  pairs : List (Text × Text)
deriving DecidableEq, Repr

namespace ProposedArgs

/-- Read `key=value` pairs joined by `&` or newlines. -/
def parse (text : Text) : ProposedArgs where
  pairs := (text.splitOnP fun c => c = '&' || c = '\n').filterMap fun pair =>
    let pair := Text.trim pair
    if pair.isEmpty then none
    else
      match Text.splitOnce pair '=' with
      | (key, some value) => some (Text.trim key, Text.trim value)
      | (_, none) => some (pair, [])

/-- The first value given for a name. -/
def get (args : ProposedArgs) (name : Text) : Option Text :=
  (args.pairs.find? fun pair => pair.1 = name).map Prod.snd

/-- Every value given for a name. -/
def valuesOf (args : ProposedArgs) (name : Text) : List Text :=
  (args.pairs.filter fun pair => pair.1 = name).map Prod.snd

def names (args : ProposedArgs) : List Text := firstSeen (args.pairs.map Prod.fst)

end ProposedArgs

inductive ViolationKind where
  | missing
  | notOneOf
  | implausibleValue
  | unknown
  | exactlyOne
  | atLeastOne
  | atMostOne
  | needs
  | givenTwice
  | envelope
deriving DecidableEq, Repr

/-- The SHACL constraint component a rule corresponds to. -/
def ViolationKind.component : ViolationKind → Text
  | .missing => "http://www.w3.org/ns/shacl#MinCountConstraintComponent".toList
  | .notOneOf => "http://www.w3.org/ns/shacl#InConstraintComponent".toList
  | .implausibleValue => "http://www.w3.org/ns/shacl#DatatypeConstraintComponent".toList
  | .unknown => "http://www.w3.org/ns/shacl#ClosedConstraintComponent".toList
  | .exactlyOne => "http://www.w3.org/ns/shacl#XoneConstraintComponent".toList
  | .atLeastOne => "http://www.w3.org/ns/shacl#OrConstraintComponent".toList
  | .atMostOne => "http://www.w3.org/ns/shacl#SPARQLConstraintComponent".toList
  | .needs => "http://www.w3.org/ns/shacl#OrConstraintComponent".toList
  | .givenTwice => "http://www.w3.org/ns/shacl#MaxCountConstraintComponent".toList
  | .envelope => "http://www.w3.org/ns/shacl#XoneConstraintComponent".toList

/-- The node of a contract that a violation is about. -/
inductive ViolationPath where
  | input (name : Text)
  | group (segment : Text)
  | value (name item : Text)
deriving DecidableEq, Repr

/-- The node's IRI under a contract's. -/
def ViolationPath.nodeIri (contract : Text) : ViolationPath → Text
  | .input name => contract ++ ":input:".toList ++ encodeName name
  | .group segment => contract ++ ":".toList ++ segment
  | .value name item =>
    contract ++ ":input:".toList ++ encodeName name ++ ":value:".toList ++ encodeName item

structure Violation where
  kind : ViolationKind
  path : Option ViolationPath
  message : Text
deriving DecidableEq, Repr

namespace InputGroup

/-- A member's name with the comma written as an escape too. -/
def memberSegment (member : Text) : Text := Text.replace (encodeName member) ',' "%2C".toList

/-- The group node's segment under its contract's IRI. -/
def nodeSegment (group : InputGroup) : Text :=
  "group:".toList ++ group.kind.word ++ ":".toList ++
    ",".toList.intercalate (OrderedSet.ofList (group.members.map memberSegment)).items

end InputGroup

/-- Whether a value counts as given: it is there and not blank. -/
def given (value : Option Text) : Bool := value.any fun value => !(Text.trim value).isEmpty

def ticked (text : Text) : Text := "`".toList ++ text ++ "`".toList

def quoted (names : List Text) : Text := ", ".toList.intercalate (names.map ticked)

def givenTwice : Text := "given twice; an argument takes one value, so name it once".toList

/-- Whether a value looks like one of a datatype; a class it does not know always passes. -/
def plausibleFor (declared value : Text) : Bool :=
  if declared = "http://www.w3.org/2001/XMLSchema#boolean".toList then
    value = "true".toList || value = "false".toList
  else if declared = "http://www.w3.org/2001/XMLSchema#integer".toList then
    (Text.parseSigned value).isSome
  else if declared = "http://www.w3.org/2001/XMLSchema#dateTime".toList then
    let bytes := value.asBytes
    let isDigit (byte : UInt8) : Bool := 0x30 ≤ byte && byte ≤ 0x39
    decide (10 ≤ bytes.length) && (bytes.take 4).all isDigit && bytes[4]? = some 0x2D &&
      ((bytes.drop 5).take 2).all isDigit && bytes[7]? = some 0x2D &&
      ((bytes.drop 8).take 2).all isDigit
  else true

namespace ArgSpec

def violation (input : ArgSpec) (kind : ViolationKind) (message : Text) : Violation :=
  ⟨kind, some (.input input.name), message⟩

/-- One value, or one item of a list, against the enumeration and the declared class. -/
def checkValue (input : ArgSpec) (value : Text) : Option Violation :=
  if input.isEnumerated && !input.oneOf.any fun accepted => accepted = value then
    let accepted :=
      if input.oneOf.isEmpty then "it accepts none: its enumeration is empty".toList
      else "one of: ".toList ++ ", ".toList.intercalate input.oneOf
    some (input.violation .notOneOf
      (ticked value ++ " is not an accepted value of ".toList ++ ticked input.name ++ " (".toList ++
        accepted ++ ")".toList))
  else
    match input.class with
    | none => none
    | some declared =>
      if plausibleFor declared value then none
      else
        some (input.violation .implausibleValue
          (ticked value ++ " does not look like a ".toList ++ declared ++ " for ".toList ++
            ticked input.name))

/-- What is said of a value. -/
def note (input : ArgSpec) (value : Text) : Option ValueNote :=
  (input.values.find? fun described => described.1 = value).map Prod.snd

/-- Those of some names that are not given. -/
def missing (effective : ProposedArgs) (needs : List Text) : List Text :=
  needs.filter fun needed => !given (effective.get needed)

/-- The dependencies of one value. -/
def checkNote (input : ArgSpec) (effective : ProposedArgs) (item : Text) : Option Violation :=
  match input.note item with
  | none => none
  | some note =>
    let missing := missing effective note.needs
    if missing.isEmpty then none
    else
      some ⟨.needs, some (.value input.name item),
        "`".toList ++ input.name ++ "=".toList ++ item ++ "` needs ".toList ++ quoted missing⟩

/-- One input of a call: given once, given at all, its values, and what they need. -/
def check (input : ArgSpec) (effective : ProposedArgs) (repeated : List Text) :
    List Violation :=
  (if input.name ∈ repeated then
      [input.violation .givenTwice (ticked input.name ++ " is ".toList ++ givenTwice)]
    else []) ++
    match effective.get input.name with
    | none =>
      if input.required && input.source ≠ .binding then
        [input.violation .missing
          ("required input ".toList ++ ticked input.name ++ " is missing".toList)]
      else []
    | some value =>
      let items :=
        match input.list with
        | some separator => separator.split value
        | none => [value]
      let lacking := missing effective input.needs
      items.filterMap input.checkValue ++
        (firstSeen items).filterMap (input.checkNote effective) ++
        if given (some value) && !lacking.isEmpty then
          [input.violation .needs (ticked input.name ++ " needs ".toList ++ quoted lacking)]
        else []

end ArgSpec

/-- One group of a call. -/
def InputGroup.check (group : InputGroup) (proposed : ProposedArgs) : Option Violation :=
  let present := group.members.filter fun member => given (proposed.get member)
  let (kind, broken, rule) :=
    match group.kind with
    | .exactlyOne => (ViolationKind.exactlyOne, decide (present.length ≠ 1), "exactly one of")
    | .atLeastOne => (ViolationKind.atLeastOne, present.isEmpty, "at least one of")
    | .atMostOne => (ViolationKind.atMostOne, decide (1 < present.length), "at most one of")
  if broken then
    let got := if present.isEmpty then "got none".toList else "got ".toList ++ quoted present
    some ⟨kind, some (.group group.nodeSegment),
      rule.toList ++ " ".toList ++ quoted group.members ++ " is required; ".toList ++ got⟩
  else none

namespace ActionSpec

/-- What a name's values come to: a list's are joined; of others the first is kept, and the
name was given twice. -/
def joinedValue (list : Option ListSeparator) (values : List Text) : Text × Bool :=
  match list, values with
  | _, [one] => (one, false)
  | some separator, many => (separator.join many, false)
  | none, first :: _ => (first, true)
  | none, [] => ([], false)

def joinedOf (spec : ActionSpec) (proposed : ProposedArgs) (name : Text) : Text × Bool :=
  joinedValue ((spec.inputs.find? fun input => input.name = name).bind ArgSpec.list)
    (proposed.valuesOf name)

/-- One value a name, and the names that were repeated without being a list. -/
def joined (spec : ActionSpec) (proposed : ProposedArgs) : ProposedArgs × List Text :=
  (⟨proposed.names.map fun name => (name, (spec.joinedOf proposed name).1)⟩,
    proposed.names.filter fun name => (spec.joinedOf proposed name).2)

/-- The call with each name given once; a repeat of a name that is no list is refused. -/
def joinRepeats (spec : ActionSpec) (proposed : ProposedArgs) : Except Error ProposedArgs :=
  match (spec.joined proposed).2.head? with
  | some name => .error (.invalidArgument name givenTwice)
  | none => .ok (spec.joined proposed).1

/-- The carrier of an envelope, and whether the call proposes its fields. -/
def carrier (spec : ActionSpec) (effective : ProposedArgs) : Option Text × Bool :=
  match spec.arguments with
  | .envelope carrier =>
    (some carrier, spec.inputs.any fun input =>
      decide (input.name ≠ carrier) && given (effective.get input.name))
  | .closed | .open _ => (none, false)

/-- Whether an input is not what this call of an envelope is about. -/
def skipped (carrier : Option Text) (fieldsGiven : Bool) (input : ArgSpec) : Bool :=
  match carrier with
  | none => false
  | some carrier =>
    if fieldsGiven then input.name = carrier
    else decide (input.name ≠ carrier) && decide (input.source = .argument)

/-- The body of an envelope given twice. -/
def checkEnvelope (carrier : Option Text) (fieldsGiven : Bool) (effective : ProposedArgs) :
    List Violation :=
  match carrier with
  | some carrier =>
    if fieldsGiven && given (effective.get carrier) then
      [⟨.envelope, some (.input carrier),
        "the body is given twice: as ".toList ++ ticked carrier ++
          " and as the fields that belong inside it; give one".toList⟩]
    else []
  | none => []

/-- The names of a call that the contract does not declare. -/
def unknown (spec : ActionSpec) (proposed : ProposedArgs) : List Text :=
  match spec.arguments with
  | .open _ => []
  | .closed | .envelope _ =>
    proposed.names.filter fun name => !spec.inputs.any fun input => input.name = name

/-- Every rule a proposed call breaks. -/
def check (spec : ActionSpec) (proposed : ProposedArgs) : List Violation :=
  let (effective, repeated) := spec.joined proposed
  let (carrier, fieldsGiven) := spec.carrier effective
  checkEnvelope carrier fieldsGiven effective ++
    ((spec.inputs.filter fun input => !skipped carrier fieldsGiven input).flatMap fun input =>
      input.check effective repeated) ++
    (spec.groups.filterMap fun group => group.check effective) ++
    (spec.unknown proposed).map fun name =>
      ⟨.unknown, none, "unknown argument ".toList ++ ticked name ++
        " — not in this action's contract".toList⟩

end ActionSpec

end Ikigai
