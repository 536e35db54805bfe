import Ikigai.AliasTable
import Ikigai.IriText
import Ikigai.Seals

/-!
# Why a declaration is refused, and an alias rule as it is declared

A refusal names the node it is about and says why. A declared rule is the whole of what
the topology states of an alias rule; what it has beyond a plain rewrite makes it a named
request, and that part is read from it once, with everything it may not say refused.
-/

namespace Ikigai

/-- Which bound a declaration is past. -/
inductive DeclarationBound where
  | depth
  | nodes
  | text
deriving DecidableEq, Repr

namespace DeclarationBound

def limit : DeclarationBound → Nat
  | .depth => 48
  | .nodes => 65536
  | .text => 16 * 1024 * 1024

def word : DeclarationBound → Text
  | .depth => "depth".toList
  | .nodes => "node".toList
  | .text => "text".toList

end DeclarationBound

inductive DeclarationError where
  | malformed (node : Option Text) (reason : Text)
  | duplicateEndpoint (id : Text)
  | unknownEndpoint (door id : Text)
  | hidden (node : Text) (mountedAt : Option Text)
  | rewrite (node : Text)
  | chain (node : Text)
  | confine (node : Text)
  | dynamic (node : Text)
  | pattern (node shape reason : Text)
  | sealing (error : SealError)
  | tooLarge (bound : DeclarationBound) (limit : Nat) (node : Text)
deriving DecidableEq, Repr

/-- The sentence a refusal is shown as. -/
def DeclarationError.text : DeclarationError → Text
  | .malformed (some node) reason =>
    "not a declaration: at <".toList ++ node ++ ">: ".toList ++ reason
  | .malformed none reason => "not a declaration: ".toList ++ reason
  | .duplicateEndpoint id =>
    "two different endpoints are named `".toList ++ id ++
      ("`: a door binds by name, so the name must say which one — register one of them, or " ++
        "rename one").toList
  | .unknownEndpoint door id =>
    "<".toList ++ door ++ "> binds `".toList ++ id ++
      ("`, which the host did not register: a declaration arranges registered endpoints " ++
        "and never mints one").toList
  | .hidden node (some mountedAt) =>
    "<".toList ++ node ++ "> is an opaque space mounted at `".toList ++ mountedAt ++
      ("` — a remote peer or a hand-written resolver, with nothing to rebuild from. A " ++
        "declaration arranges local endpoints only; declared remote mounts are ledger " ++
        "#630").toList
  | .hidden node none =>
    "<".toList ++ node ++
      ("> is an opaque space — a remote peer or a hand-written resolver, with nothing to " ++
        "rebuild from").toList
  | .rewrite node =>
    "<".toList ++ node ++
      ("> is a closure rewrite: its rule is code, not a table, so it cannot be declared (a " ++
        "table-driven rewrite is an ik:Alias)").toList
  | .chain node =>
    "<".toList ++ node ++
      ("> is a resolution chain: a declaration describes a space, and the chain is per " ++
        "request (declare the root layer)").toList
  | .confine node =>
    "<".toList ++ node ++
      ("> is a confinement where a space belongs: a confinement lives at a door — declare " ++
        "it as that door's ik:confinedTo").toList
  | .dynamic node =>
    "<".toList ++ node ++
      ("> is a dynamic space: its doors are rebuilt by a running host from its own " ++
        "declaration, so a declaration cannot build one (declare what it holds, or bind a " ++
        "DynamicSpace in code)").toList
  | .pattern node shape reason =>
    "<".toList ++ node ++ "> matches `".toList ++ shape ++ "`, which ".toList ++ reason
  | .sealing error => "the declared arrangement: ".toList ++ error.text
  | .tooLarge .depth limit node =>
    "<".toList ++ node ++ "> nests deeper than ".toList ++ Nat.toDigits 10 limit ++
      (" spaces (MAX_DECLARATION_DEPTH): a declaration past a bound is refused whole, never " ++
        "read partway").toList
  | .tooLarge bound limit node =>
    "at <".toList ++ node ++ "> the declaration passes its ".toList ++ bound.word ++
      " bound of ".toList ++ Nat.toDigits 10 limit ++ " (MAX_DECLARATION_".toList ++
      (if bound = .text then "TEXT, in bytes" else "NODES").toList ++
      ("), counting a named node at every place it is used: a declaration past a bound is " ++
        "refused whole, never read partway").toList

/-- What the parser says of a pattern it refuses. -/
def TemplateError.text (error : TemplateError) (source : Text) : Text :=
  "invalid URI template: ".toList ++
    (match error with
    | .unclosed => "unclosed '\x7b' in `".toList ++ source ++ "`".toList
    | .invalidVariable name =>
      "invalid variable `\x7b".toList ++ name ++ "\x7d` in `".toList ++ source ++ "`".toList
    | .adjacentVariables =>
      "adjacent variables are ambiguous in `".toList ++ source ++ "`".toList)

/-- An alias rule in full, as the topology states it. -/
structure DeclaredRule extends TopologyRule where
  target : Text
  resolveAt : ResolveAt := .child
  template : Bool := false
  verb : Option Verb := none
  fixes : List FixedArgument := []
  inputs : List ArgSpec := []
deriving DecidableEq, Repr

/-- A rule as the topology reports it. -/
def AliasRule.summary (rule : AliasRule) : DeclaredRule where
  kind := rule.kind
  source := rule.source
  target := rule.target
  resolveAt := rule.resolveAt
  template := rule.request.template.isSome
  verb := rule.request.verb
  fixes := rule.request.fixes
  inputs := rule.request.inputs

/-- Whether a declared input says only what a declaration's input node states. -/
def ArgSpec.declarable (input : ArgSpec) : Bool :=
  input.examples.isEmpty && input.needs.isEmpty && input.list.isNone && input.values.isEmpty &&
    !input.readsBody && input.fixed.isNone && input.class.all isIriSafe

/-- RFC 6570 simple expansion: a capture is data, so every byte of it but the unreserved
ones is escaped. -/
def encodeCapture (capture : Text) : Text :=
  capture.asBytes.flatMap fun byte =>
    let c := Char.ofNat byte.toNat
    if c.isAlphanum || c ∈ ['-', '.', '_', '~'] then [c] else percentEncode byte

/-- Expand a template with its captures escaped. -/
def UriTemplate.expandEncoded (template : UriTemplate) (bindings : List (Text × Text)) :
    Option Text :=
  template.expand (bindings.map fun (name, capture) => (name, encodeCapture capture))

namespace DeclaredRule

/-- Whether the rule is a named request. -/
def isNamed (rule : DeclaredRule) : Bool :=
  rule.template || rule.verb.isSome || !rule.fixes.isEmpty || !rule.inputs.isEmpty

def refuse (rule : DeclaredRule) (reason : Text) : DeclarationError :=
  .malformed (some rule.source) reason

/-- Read one of the rule's texts as a template. -/
def readPattern (rule : DeclaredRule) (text : Text) : Except DeclarationError UriTemplate :=
  (UriTemplate.parse text).mapError fun error =>
    .pattern rule.source text ("is not a URI template: ".toList ++ error.text text)

/-- The template a rule's logical name is. -/
def logicalTemplate (rule : DeclaredRule) : Except DeclarationError (Option UriTemplate) :=
  if rule.template then
    if rule.kind ≠ .exact then
      .error (rule.refuse
        "a template rule matches one whole name: it is never a prefix rule".toList)
    else do
      let template ← rule.readPattern rule.source
      if template.variableNames.isEmpty then
        .error (rule.refuse
          ("a template rule captures at least one \x7bvar\x7d; with none it is an " ++
            "exact rule").toList)
      else .ok (some template)
  else .ok none

/-- The template a rule's canonical name is, in the variables of the logical one. -/
def targetTemplate (rule : DeclaredRule) (vars : List Text) :
    Except DeclarationError (Option UriTemplate) :=
  if '\x7b' ∈ rule.target then do
    let target ← rule.readPattern rule.target
    match target.variableNames.find? (· ∉ vars) with
    | some var =>
      .error (rule.refuse
        ("its canonical name uses \x7b".toList ++ var ++
          "\x7d, which its logical name does not capture".toList))
    | none => .ok (some target)
  else .ok none

/-- A name a declaration can state. -/
def checkName (rule : DeclaredRule) (name : Text) (what : String) : Except DeclarationError Unit :=
  if name.isEmpty || !isIriSafe name then
    .error (rule.refuse
      (what.toList ++ " `".toList ++ name ++
        "` is not a name a declaration can state (empty, or not IRI-safe)".toList))
  else .ok ()

variable [IriSyntax]

/-- Check how one argument is fixed, in the variables of the logical name. -/
def checkFixed (rule : DeclaredRule) (vars : List Text) (argument : FixedArgument) :
    Except DeclarationError Unit :=
  match argument.value with
  | .value _ | .reference _ => .ok ()
  | .referenceTemplate template =>
    match template.variableNames.find? (· ∉ vars) with
    | some var =>
      .error (rule.refuse
        ("it fixes `".toList ++ argument.name ++ "` with unknown capture \x7b".toList ++ var ++
          "\x7d".toList))
    | none =>
      if template.variableNames.isEmpty then
        .error (rule.refuse
          ("reference template for `".toList ++ argument.name ++
            "` needs at least one variable; use a plain reference".toList))
      else
        let expanded := (template.expandEncoded
          (template.variableNames.map fun var => (var, "segment".toList))).getD []
        if (Iri.parse expanded).isSome then .ok ()
        else .error (rule.refuse
          ("reference template for `".toList ++ argument.name ++ "` is not an IRI: ".toList ++
            IriSyntax.refusal expanded))
  | .capture var =>
    if var ∈ vars then .ok ()
    else .error (rule.refuse
      ("it fixes `".toList ++ argument.name ++ "` to the capture \x7b".toList ++ var ++
        "\x7d, which its logical name does not have".toList))

/-- Check the fixed arguments in order, with the names taken so far. -/
def checkFixes (rule : DeclaredRule) (vars : List Text) :
    List FixedArgument → List Text → Except DeclarationError (List Text)
  | [], names => .ok names
  | argument :: rest, names => do
    rule.checkName argument.name "it fixes"
    if argument.name = "as".toList then
      .error (rule.refuse
        ("it fixes `as`, which negotiates the face and is never fixed: declare `as` as an " ++
          "input with a default, the name's default face").toList)
    else if argument.name ∈ names then
      .error (rule.refuse ("it fixes `".toList ++ argument.name ++ "` twice".toList))
    else
      rule.checkFixed vars argument
      rule.checkFixes vars rest (names ++ [argument.name])

/-- Check the declared inputs in order, with the names taken so far. -/
def checkInputs (rule : DeclaredRule) : List ArgSpec → List Text → Except DeclarationError Unit
  | [], _ => .ok ()
  | input :: rest, names => do
    rule.checkName input.name "it declares"
    if input.name ∈ names then
      .error (rule.refuse
        ("it both fixes and declares `".toList ++ input.name ++
          "`: a declared input is the caller's to give".toList))
    else if input.source = .binding then
      .error (rule.refuse
        ("it declares `".toList ++ input.name ++
          "` as a binding: a template rule's captures are its bindings".toList))
    else if !input.declarable then
      .error (rule.refuse
        ("it declares `".toList ++ input.name ++
          ("` with more than a declaration states (an input's name, summary, required, " ++
            "class, default and one_of)").toList))
    else rule.checkInputs rest (names ++ [input.name])

/-- Read the rule's part as a named request; its arguments are kept in name order. -/
def requestPart (rule : DeclaredRule) : Except DeclarationError RequestPart :=
  if !rule.isNamed then .ok .plain
  else if rule.resolveAt ≠ .root then
    .error (rule.refuse
      ("a named request (a template, a bound verb, fixed arguments or declared inputs) " ++
        "resolves from the root: mark it ik:resolveAt \"root\"").toList)
  else do
    let template ← rule.logicalTemplate
    let vars := (template.map UriTemplate.variableNames).getD []
    let target ← rule.targetTemplate vars
    if rule.verb = some .«meta» then
      .error (rule.refuse
        ("a named request forwards Source, Sink, Exists or Delete: its Meta is answered " ++
          "from its contract").toList)
    else
      let names ← rule.checkFixes vars rule.fixes []
      rule.checkInputs rule.inputs names
      .ok ⟨template, target, rule.verb,
        rule.fixes.insertionSort fun first second => first.name ≤ second.name,
        rule.inputs.insertionSort fun first second => first.name ≤ second.name⟩

/-- A named request that is read resolves at the root. -/
theorem request_part_rooted (rule : DeclaredRule) (part : RequestPart)
    (read : rule.requestPart = .ok part) (named : part.isEmpty = false) :
    rule.resolveAt = .root := by
  unfold requestPart at read
  split at read
  · cases read
    cases named
  · split at read
    · cases read
    · rename_i rooted
      exact not_not.mp rooted

/-- The rule a declared one is. -/
def toRule (rule : DeclaredRule) : Except DeclarationError AliasRule :=
  match read : rule.requestPart with
  | .ok part =>
    .ok ⟨rule.kind, rule.source, rule.target, rule.resolveAt, part,
      rule.request_part_rooted part read⟩
  | .error error => .error error

end DeclaredRule

end Ikigai
