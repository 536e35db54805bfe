import Ikigai.OrderedSet
import Ikigai.Text

/-!
# Capabilities

A capability is root, or a set of scopes. Most scopes are grants; a deny-shaped scope
is an exclusion, and a well-formed principal scope names whom a request is for. The
two narrowing operations keep a grant only when both sides name it, keep every
exclusion either side holds, and never add or change a principal. What the kernel asks
of a capability is `satisfies`: a plain scope is matched exactly, and a family, a scope
that ends in `*`, asks whether any scope under it is held. The texts that print a
refusal are left out, and so is the wire form.
-/

namespace Ikigai

/-- A scope set, iterated in order. -/
abbrev ScopeSet := OrderedSet Text

/-- Full authority, or exactly these scopes, grants and exclusions together. -/
inductive Capability where
  | root
  | scoped (held : ScopeSet)
deriving DecidableEq

/-- Split at the first separator: what is ahead of it, and what follows if there is one. -/
def Text.splitOnce (text : Text) (separator : Char) : Text × Option Text :=
  (text.takeWhile (· ≠ separator), (text.dropWhile (· ≠ separator)).tail?)

theorem Text.split_once_append (front back : Text) (c : Char) (absent : c ∉ front) :
    Text.splitOnce (front ++ c :: back) c = (front, some back) := by
  have run : ∀ other ∈ front, decide (other ≠ c) = true := by
    intro other member
    exact decide_eq_true fun same => absent (same ▸ member)
  rw [Text.splitOnce, List.takeWhile_append_of_pos run, List.dropWhile_append_of_pos run]
  simp

namespace Capability

/-- A family or qualifier segment: `[a-z0-9][a-z0-9_-]*`. -/
def isWord : Text → Bool
  | [] => false
  | c :: rest =>
    (c.isLower || c.isDigit) && rest.all fun c => c.isLower || c.isDigit || c == '_' || c == '-'

/-- Whether a scope is deny-shaped: its rule, in the second or the third of its
segments, begins with `-`. -/
def isDenyScope (scope : Text) : Bool :=
  match scope.stripPrefix "urn:cap:".toList with
  | none => false
  | some rest =>
    let (family, further) := rest.splitOnce ':'
    if !isWord family then false
    else
      match further with
      | none => false
      | some further =>
        let (second, rule) := further.splitOnce ':'
        if second.startsWith ['-'] then true
        else if isWord second then rule.any fun rule => rule.startsWith ['-']
        else false

/-- The head of a principal scope. -/
def principalScopePrefix : Text := "urn:cap:principal:".toList

/-- The longest principal a capability will carry, in bytes. -/
def maxPrincipalLen : Nat := 512

/-- Why an IRI cannot be carried as a principal. -/
inductive PrincipalError where
  | notAnIri (offered : Text) (detail : Text)
  | tooLong (length : Nat)
  | wildcard (offered : Text)
  | denyShaped (offered : Text)
  | root
deriving DecidableEq, Repr

variable [IriSyntax]

def checkPrincipal (iri : Text) : Except PrincipalError Unit :=
  if maxPrincipalLen < iri.byteLen then .error (.tooLong iri.byteLen)
  else if (Iri.parse iri).isNone then .error (.notAnIri iri (IriSyntax.refusal iri))
  else if '*' ∈ iri then .error (.wildcard iri)
  else if isDenyScope (principalScopePrefix ++ iri) then .error (.denyShaped iri)
  else .ok ()

/-- The scope that carries an IRI as a principal, or why it cannot be one. -/
def principalScope (iri : Text) : Except PrincipalError Text :=
  match checkPrincipal iri with
  | .error refusal => .error refusal
  | .ok _ => .ok (principalScopePrefix ++ iri)

/-- The principal a scope carries, if it is a well-formed principal scope. -/
def principalIn (scope : Text) : Option Text :=
  match scope.stripPrefix principalScopePrefix with
  | none => none
  | some iri => if (checkPrincipal iri).isOk then some iri else none

/-- The one principal a scope set carries: none for none and for several. -/
def singlePrincipal (held : ScopeSet) : Option Text :=
  match held.items.filterMap principalIn with
  | [principal] => some principal
  | _ => none

/-- Drop every principal scope from a set that carries more than one. -/
def atMostOnePrincipal (scopes : ScopeSet) : ScopeSet :=
  if 1 < scopes.items.countP fun scope => (principalIn scope).isSome then
    scopes.filter fun scope => (principalIn scope).isNone
  else scopes

/-- Whether a held scope survives a request for some scopes: the holder's one principal
and a grant when it is asked for, an exclusion always. -/
def survives (held requested : ScopeSet) (scope : Text) : Bool :=
  match principalIn scope with
  | some principal =>
    decide (some principal = singlePrincipal held) && decide (scope ∈ requested)
  | none => isDenyScope scope || decide (scope ∈ requested)

def isRoot : Capability → Bool
  | .root => true
  | .scoped _ => false

/-- The scopes held, or none for root. -/
def scopes : Capability → Option ScopeSet
  | .root => none
  | .scoped held => some held

/-- Keep only grants already held, and every exclusion. -/
def attenuate (capability : Capability) (asked : List Text) : Capability :=
  let requested := OrderedSet.ofList asked
  match capability with
  | .root => .scoped (atMostOnePrincipal requested)
  | .scoped held =>
    .scoped ((held.filter (survives held requested)).extend
      (requested.items.filter isDenyScope))

/-- Clamp to a ceiling: the ceiling attenuated to what was carried, its own principal
kept. -/
def clamp (capability carried : Capability) : Capability :=
  match carried with
  | .root => capability
  | .scoped asked =>
    match capability, capability.attenuate asked.items with
    | .scoped held, .scoped kept =>
      match singlePrincipal held with
      | some principal => .scoped (kept.insert (principalScopePrefix ++ principal))
      | none => .scoped kept
    | _, clamped => clamped

/-- The one principal a capability carries. -/
def principal : Capability → Option Text
  | .root => none
  | .scoped held => singlePrincipal held

def actsAs (capability : Capability) (principal : Text) : Bool :=
  match capability with
  | .root => true
  | .scoped held => singlePrincipal held == some principal

/-- The same authority carrying a principal in place of any it held: a door's mint. -/
def withPrincipal (capability : Capability) (principal : Text) :
    Except PrincipalError Capability :=
  match principalScope principal with
  | .error refusal => .error refusal
  | .ok scope =>
    match capability with
    | .root => .error .root
    | .scoped held =>
      .ok (.scoped ((held.filter fun scope => !scope.startsWith principalScopePrefix).insert scope))

/-- Whether a scope is granted, matched exactly: an exclusion never is, a principal only
as the one the capability carries. -/
def allows (capability : Capability) (scope : Text) : Bool :=
  match capability with
  | .root => true
  | .scoped held =>
    decide (scope ∈ held) && !isDenyScope scope &&
      (principalIn scope).all fun principal => singlePrincipal held == some principal

/-- Whether a declared scope is satisfied: a family by any scope held under it, any
other scope by being granted. -/
def satisfies (capability : Capability) (scope : Text) : Bool :=
  match scope.stripSuffix '*' with
  | some family =>
    match capability.scopes with
    | none => true
    | some held => held.items.any fun scope => scope.startsWith family
  | none => capability.allows scope

end Capability

end Ikigai
