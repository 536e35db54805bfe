import Ikigai.Text

/-!
# The arrangement as a tree

What a space shows of itself: one node a combinator, its identity, and the nodes
it delegates to. The tree is what the seal table is built from. Only the parts a
modelled function reads are kept: of an alias rule its kind and its logical name,
of a limiter nothing, and the other combinators by their children alone.
-/

namespace Ikigai

/-- How a door's pattern matches. -/
inductive MatchKind where
  | exact
  | template
  | headed
  | custom
deriving DecidableEq, Repr

/-- An alias rule replaces one name, or the head of a family of names. -/
inductive RuleKind where
  | exact
  | headed
deriving DecidableEq, Repr

/-- A binding of an endpoint space: its pattern, and how the pattern matches. -/
structure Door where
  pattern : Text
  kind : MatchKind
deriving DecidableEq, Repr

/-- An alias rule as the topology states it: its kind and its logical name. -/
structure TopologyRule where
  kind : RuleKind
  source : Text
deriving DecidableEq, Repr

/-- What one node of an arrangement is. `other` covers the kinds that the seal
walk only passes through: fallbacks, rewrites, confinements, dynamic spaces,
chains, and a space that shows nothing of itself. -/
inductive SpaceKind where
  | endpointSpace (doors : List Door)
  | mount (head : Text)
  | «alias» (rules : List TopologyRule)
  | limit
  | level (seals : List Text) (home : Option Text)
  | other
deriving DecidableEq, Repr

/-- One node: the identity it claims, its kind, what it delegates to, and, on a
level this process built, the level object's serial number. -/
inductive Topology where
  | node (id : Option Iri) (kind : SpaceKind) (children : List Topology) (level : Option Nat)

end Ikigai
