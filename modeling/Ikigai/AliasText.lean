import Ikigai.Declaration

/-!
# The text form of an alias table

One line a rule: its keyword, its logical name, its canonical name, and where it resolves
unless that is in the alias's child. The reader drops what follows a `#`, splits a line on
white space, and inserts each rule in precedence order. The writer puts both names down as
they are. A name may hold what the reader takes for a comment or a gap: an IRI holds a
fragment and the white space beyond Latin-1, and the names of a template rule are not
checked to be IRIs at all.
-/

namespace Ikigai

namespace Text

/-- `str::parse` for a machine word: an optional plus sign, then decimal digits. -/
def parseWord (text : Text) : Option Nat :=
  let digits := (stripPrefix text ['+']).getD text
  if digits.isEmpty || !digits.all Char.isDigit then none
  else
    let value := Nat.ofDigitChars 10 digits 0
    if value ≤ wordMax then some value else none

end Text

def MatchKind.keyword : MatchKind → Text
  | .exact => "exact".toList
  | .template => "template".toList
  | .headed => "prefix".toList
  | .custom => "custom".toList

def ResolveAt.keyword : ResolveAt → Text
  | .child => "child".toList
  | .root => "root".toList

def Verb.name : Verb → Text
  | .source => "Source".toList
  | .sink => "Sink".toList
  | .exists => "Exists".toList
  | .delete => "Delete".toList
  | .«meta» => "Meta".toList

/-- The spelling a binding writes. -/
def FixedValue.text : FixedValue → Text
  | .value text => text
  | .reference name => '<' :: name ++ ['>']
  | .referenceTemplate template => '<' :: template.source ++ ['>']
  | .capture captured => '\x7b' :: captured ++ ['\x7d']

/-- The order of a table: the longer logical name first, then by keyword, then by name. -/
def AliasRule.Precedes (first second : AliasRule) : Prop :=
  second.source.byteLen < first.source.byteLen ∨
    (second.source.byteLen = first.source.byteLen ∧
      (first.matchKind.keyword < second.matchKind.keyword ∨
        (first.matchKind.keyword = second.matchKind.keyword ∧ first.source ≤ second.source)))

instance : DecidableRel AliasRule.Precedes := fun first second =>
  inferInstanceAs (Decidable (second.source.byteLen < first.source.byteLen ∨
    (second.source.byteLen = first.source.byteLen ∧
      (first.matchKind.keyword < second.matchKind.keyword ∨
        (first.matchKind.keyword = second.matchKind.keyword ∧ first.source ≤ second.source)))))

namespace AliasTable

/-- Insert one rule in precedence order. -/
def insert (table : AliasTable) (rule : AliasRule) : AliasTable where
  rules := (table.rules ++ [rule]).insertionSort AliasRule.Precedes
  maxHops := table.maxHops
  positive := table.positive

/-- Add a rule as it is declared. -/
def withRule [IriSyntax] (table : AliasTable) (rule : DeclaredRule) :
    Except DeclarationError AliasTable :=
  rule.toRule.map table.insert

/-- Set the hop budget; none is one. -/
def withMaxHops (table : AliasTable) (hops : Nat) : AliasTable where
  rules := table.rules
  maxHops := max hops 1
  positive := Nat.lt_of_lt_of_le Nat.zero_lt_one (Nat.le_max_right hops 1)

end AliasTable

structure AliasParseError where
  line : Nat
  detail : Text
deriving DecidableEq, Repr

namespace AliasTable

def unexpected (content : Text) : Text :=
  ("expected `exact <from> <to> [root]`, `prefix <from> <to> [root]`, `template <from> <to> " ++
    "root` or `max-hops <n>`, got `").toList ++ content ++ "`".toList

def withArguments (content kind : Text) : Text :=
  "`".toList ++ content ++ "` is a ".toList ++ kind ++
    (" rule with arguments, which the line form cannot write (its fields cannot hold a quoted " ++
      "value): declare it as a named request in Turtle (ik:fixes on an ik:RewriteRule) or in " ++
      "a host's names file").toList

/-- Where a plain rule resolves, from the fields after its names. -/
def readPlace : List Text → Except Text ResolveAt
  | [] => .ok .child
  | place :: _ =>
    if place = ResolveAt.child.keyword then .ok .child
    else if place = ResolveAt.root.keyword then .ok .root
    else .error ("`".toList ++ place ++
      "` is not where a rule resolves (child or root)".toList)

variable [IriSyntax]

/-- Check that a side of a plain rule is an IRI. -/
def checkSide (label : String) (value : Text) : Except Text Unit :=
  if (Iri.parse value).isSome then .ok ()
  else .error (label.toList ++ " `".toList ++ value ++ "`: ".toList ++ IriSyntax.refusal value)

/-- Read a plain rule. -/
def readPlain (table : AliasTable) (kind : RuleKind) (source target : Text) (rest : List Text) :
    Except Text AliasTable := do
  let place ← readPlace rest
  checkSide "from" source
  checkSide "to" target
  return table.insert (.plain kind source target place)

/-- What the line of a template rule declares. -/
def templateLine (source target : Text) : DeclaredRule where
  kind := .exact
  source := source
  target := target
  resolveAt := .root
  template := true

/-- Read a template rule, which always resolves at the root. -/
def readTemplate (table : AliasTable) (source target : Text) (rest : List Text) :
    Except Text AliasTable :=
  if rest = [ResolveAt.root.keyword] then
    (table.withRule (templateLine source target)).mapError DeclarationError.text
  else
    .error ("a template rule is a named request and resolves from the root: write `template ".toList
      ++ source ++ " ".toList ++ target ++ " root`".toList)

/-- Read the fields of one line. -/
def readFields (table : AliasTable) (content : Text) : List Text → Except Text AliasTable
  | [word, hops] =>
    if word = "max-hops".toList then
      match hops.parseWord with
      | some count => .ok (table.withMaxHops count)
      | none => .error ("`".toList ++ hops ++ "` is not a hop count".toList)
    else .error (unexpected content)
  | kind :: source :: target :: rest =>
    if kind ∈ [MatchKind.exact.keyword, MatchKind.headed.keyword, MatchKind.template.keyword] then
      if rest.any fun field => '=' ∈ field then .error (withArguments content kind)
      else if kind = MatchKind.template.keyword then table.readTemplate source target rest
      else if rest.length ≤ 1 then
        table.readPlain (if kind = MatchKind.exact.keyword then .exact else .headed)
          source target rest
      else .error (unexpected content)
    else .error (unexpected content)
  | _ => .error (unexpected content)

/-- What of a line is not a comment. -/
def lineContent (raw : Text) : Text := Text.trim (raw.takeWhile (· ≠ '#'))

/-- Read one line. -/
def readLine (table : AliasTable) (raw : Text) : Except Text AliasTable :=
  if (lineContent raw).isEmpty then .ok table
  else table.readFields (lineContent raw) (lineContent raw).splitWhitespace

/-- Read the lines from a number on. -/
def readLines (table : AliasTable) : List Text → Nat → Except AliasParseError AliasTable
  | [], _ => .ok table
  | raw :: rest, line =>
    match table.readLine raw with
    | .ok next => next.readLines rest (line + 1)
    | .error detail => .error ⟨line, detail⟩

/-- Parse the text form. -/
def parse (text : Text) : Except AliasParseError AliasTable :=
  (ofRules []).readLines text.lines 1

end AliasTable

/-- What is written of a rule after its names. -/
def AliasRule.tail (rule : AliasRule) : Text :=
  (if rule.resolveAt ≠ .child then ' ' :: rule.resolveAt.keyword else []) ++
    ((rule.request.verb.map fun verb => " verb=".toList ++ verb.name).getD [] ++
      (rule.request.fixes.flatMap fun fixed =>
        ' ' :: fixed.name ++ '=' :: fixed.value.text) ++
      (rule.request.inputs.flatMap fun input => " input=".toList ++ input.name))

/-- A rule's line, without its end. -/
def AliasRule.line (rule : AliasRule) : Text :=
  rule.matchKind.keyword ++ ' ' :: rule.source ++ ' ' :: rule.target ++ rule.tail

namespace AliasTable

/-- The lines of the text form, without their ends. -/
def textLines (table : AliasTable) : List Text :=
  (if table.maxHops ≠ defaultMaxHops then ["max-hops ".toList ++ Nat.toDigits 10 table.maxHops]
    else []) ++ table.rules.map AliasRule.line

/-- Render the table back to its text form. -/
def toText (table : AliasTable) : Text := table.textLines.flatMap fun line => line ++ ['\n']

end AliasTable

end Ikigai
