import Ikigai.Text

/-!
# Requests and their errors

A request is a verb over a target with named arguments. The argument map is kept
as the list of its entries in name order; no function modelled here looks inside
one. The content identity of a request belongs to the cache and is taken there.
-/

namespace Ikigai

/-- The five verbs of resolution. -/
inductive Verb where
  | source
  | sink
  | exists
  | delete
  | «meta»
deriving DecidableEq, Repr

namespace Verb

/-- Whether an answer to this verb may be cached. -/
def isCacheable : Verb → Bool
  | .source | .exists | .«meta» => true
  | .sink | .delete => false

/-- Whether the verb changes the resource. -/
def isMutating : Verb → Bool
  | .sink | .delete => true
  | .source | .exists | .«meta» => false

/-- The two classes split the verbs. -/
theorem is_mutating_eq (verb : Verb) : verb.isMutating = !verb.isCacheable := by
  cases verb <;> rfl

end Verb

/-- An argument by value, by name, or by content identity. -/
inductive ArgRef where
  | reference (name : Iri)
  | inline (bytes : List UInt8)
  | content (digest : List UInt8)
deriving DecidableEq, Repr

structure Request where
  verb : Verb
  target : Iri
  args : List (Text × ArgRef)
deriving DecidableEq, Repr

/-- A request with no arguments. -/
def Request.new (verb : Verb) (target : Iri) : Request := ⟨verb, target, []⟩

/-- Why a request failed. -/
inductive Error where
  | unresolved (target : Iri)
  | missingArgument (name : Text)
  | invalidArgument (name : Text) (detail : Text)
  | endpoint (detail : Text)
  | denied (detail : Text)
  | notFound (detail : Text)
  | gone (detail : Text)
  | conflict (detail : Text)
  | timeout (detail : Text)
  | unavailable (detail : Text)
  | depthExceeded (depth : Nat) (target : Iri)
  | retryAfter (delayMillis : Option Nat) (detail : Text)
  | overBudget (detail : Text)
  | refused (detail : Text)
  | unsupported (verb : Option Verb) (detail : Text)
deriving DecidableEq, Repr

end Ikigai
