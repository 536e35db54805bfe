import Ikigai.Description
import Ikigai.Topology
import Ikigai.UriTemplate

/-!
# Alias tables

A table rewrites names: the first rule in table order that matches is applied, and
again to its result, until no rule matches, a name comes back, a result is not an
IRI, or the hop bound is reached. Any order of rules is a table here; the source
keeps them sorted with the most specific first. A rule with a request part is a named
request, and only a rule that resolves at the root has one. Counters are kept by the
kernel that owns the table.
-/

namespace Ikigai

/-- Where a rewritten name resolves. -/
inductive ResolveAt where
  | child
  | root
deriving DecidableEq, Repr

/-- How a fixed argument's value is given: as text, as a name, as a name's template, or as
what a variable of the rule captured. -/
inductive FixedValue where
  | value (text : Text)
  | reference (name : Iri)
  | referenceTemplate (template : UriTemplate)
  | capture (captured : Text)
deriving DecidableEq, Repr

structure FixedArgument where
  name : Text
  value : FixedValue
deriving DecidableEq, Repr

/-- What makes a root rule a named request: the template its logical name is, that of its
canonical name, the verb it forwards, the arguments it fixes and the inputs it declares. -/
structure RequestPart where
  template : Option UriTemplate
  target : Option UriTemplate
  verb : Option Verb
  fixes : List FixedArgument
  inputs : List ArgSpec
deriving DecidableEq, Repr

/-- The part of a plain rewrite. -/
def RequestPart.plain : RequestPart := ⟨none, none, none, [], []⟩

def RequestPart.isEmpty (part : RequestPart) : Bool :=
  part.template.isNone && part.verb.isNone && part.fixes.isEmpty && part.inputs.isEmpty

/-- There is nothing to resolve at the root in a plain rewrite. -/
theorem RequestPart.plain_rooted (place : ResolveAt) (named : plain.isEmpty = false) :
    place = .root := by
  cases named

structure AliasRule where
  kind : RuleKind
  source : Text
  target : Text
  resolveAt : ResolveAt
  request : RequestPart
  rooted : request.isEmpty = false → resolveAt = .root
deriving DecidableEq, Repr

namespace AliasRule

/-- A rule that is a plain rewrite. -/
def plain (kind : RuleKind) (source target : Text) (resolveAt : ResolveAt) : AliasRule :=
  ⟨kind, source, target, resolveAt, .plain, RequestPart.plain_rooted resolveAt⟩

def isNamedRequest (rule : AliasRule) : Bool := !rule.request.isEmpty

/-- How the rule matches, a template rule included. -/
def matchKind (rule : AliasRule) : MatchKind :=
  match rule.request.template, rule.kind with
  | some _, _ => .template
  | none, .exact => .exact
  | none, .headed => .headed

/-- The captures whose consumer reports an empty value itself. -/
def emptyCaptures (fixes : List FixedArgument) : List Text :=
  fixes.flatMap fun argument =>
    match argument.value with
    | .referenceTemplate template => template.variableNames
    | .value _ | .reference _ | .capture _ => []

/-- What a template rule captures of a name. -/
def captured [IriSyntax] (rule : AliasRule) (template : UriTemplate) (name : Text) :
    Option (List (Text × Text)) :=
  (Iri.parse name).bind fun name =>
    match template.matchIri name with
    | some captures => some captures
    | none =>
      if (emptyCaptures rule.request.fixes).isEmpty then none
      else template.matchWithEmpty name (emptyCaptures rule.request.fixes)

/-- Apply a rule to a name, if it matches, with what a template rule captured. -/
def applyCapturing [IriSyntax] (rule : AliasRule) (name : Text) :
    Option (Text × List (Text × Text)) :=
  match rule.request.template with
  | some template =>
    (rule.captured template name).bind fun captures =>
      match rule.request.target with
      | some target => (target.expand captures).map fun next => (next, captures)
      | none => some (rule.target, captures)
  | none =>
    match rule.kind with
    | .exact => if name = rule.source then some (rule.target, []) else none
    | .headed => (name.stripPrefix rule.source).map fun rest => (rule.target ++ rest, [])

/-- Apply a rule to a name, if it matches. -/
def apply [IriSyntax] (rule : AliasRule) (name : Text) : Option Text :=
  (rule.applyCapturing name).map Prod.fst

/-- A rule that resolves in its child is a plain rewrite. -/
theorem child_is_plain (rule : AliasRule) (child : rule.resolveAt = .child) :
    rule.request.template = none := by
  have bare : rule.request.isEmpty = true := by
    by_contra named
    rw [Bool.not_eq_true] at named
    rw [rule.rooted named] at child
    cases child
  simp only [RequestPart.isEmpty, Bool.and_eq_true, Option.isNone_iff_eq_none] at bare
  exact bare.1.1.1

end AliasRule

/-- A rewrite: the name asked for, the name reached, the rules applied in order. -/
structure AliasHop where
  logical : Iri
  canonical : Iri
  rules : List Nat
deriving DecidableEq, Repr

/-- Why a name could not be rewritten. -/
inductive AliasReason where
  | invalid (text : Text)
  | cycle
  | exceeded (hops : Nat)
deriving DecidableEq, Repr

structure AliasRefusal where
  logical : Iri
  reason : AliasReason
  trail : List Text
  rules : List Nat
deriving DecidableEq, Repr

inductive Canonical where
  | direct
  | aliased (hop : AliasHop)
  | refused (refusal : AliasRefusal)
deriving DecidableEq, Repr

/-- Rules in table order, and a hop bound, which every builder keeps above zero. -/
structure AliasTable where
  rules : List AliasRule
  maxHops : Nat
  positive : 0 < maxHops
deriving DecidableEq, Repr

/-- The bound a table has unless a builder sets another. -/
def defaultMaxHops : Nat := 8

theorem default_max_hops_positive : 0 < defaultMaxHops := by decide

/-- A table of rules under the default bound. -/
def AliasTable.ofRules (rules : List AliasRule) : AliasTable :=
  ⟨rules, defaultMaxHops, default_max_hops_positive⟩

/-- The operation a name has in the kernel's own namespace, whose head is compared
without regard to ASCII case. -/
def kernelOp (target : Text) : Option Text :=
  let head := "urn:kernel:".toList
  if (target.take head.length).map Char.toLower = head then some (target.drop head.length)
  else none

namespace AliasTable

variable [IriSyntax]

/-- The first rule that matches, by its index, and what it makes of the name. -/
def step (table : AliasTable) (name : Text) : Option (Nat × Text) :=
  table.rules.zipIdx.findSome? fun (rule, index) => (rule.apply name).map fun next => (index, next)

/-- The walk with some hops left, from the name reached so far. -/
def walkFrom (table : AliasTable) (logical : Iri) :
    Nat → Iri → List Text → List Nat → Canonical
  | 0, _, trail, applied => .refused ⟨logical, .exceeded table.maxHops, trail, applied⟩
  | hops + 1, current, trail, applied =>
    match table.step current with
    | none => if applied.isEmpty then .direct else .aliased ⟨logical, current, applied⟩
    | some (index, next) =>
      match Iri.parse next with
      | none => .refused ⟨logical, .invalid next, trail, applied ++ [index]⟩
      | some nextIri =>
        if nextIri ∈ trail then
          .refused ⟨logical, .cycle, trail ++ [nextIri], applied ++ [index]⟩
        else table.walkFrom logical hops nextIri (trail ++ [nextIri]) (applied ++ [index])

/-- Rewrite a name to the name it stands for; the kernel's namespace is reserved. -/
def canonicalize (table : AliasTable) (target : Iri) : Canonical :=
  if (kernelOp target).isSome then .direct
  else table.walkFrom target table.maxHops target [target] []

/-- No table rewrites a name of the kernel's own, and none refuses one. -/
theorem canonicalize_reserved (table : AliasTable) {target : Iri}
    (reserved : kernelOp target ≠ none) :
    table.canonicalize target = .direct :=
  if_pos (Option.isSome_iff_ne_none.mpr reserved)

end AliasTable

end Ikigai
