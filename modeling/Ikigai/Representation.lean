import Ikigai.OrderedSet
import Ikigai.Text

/-!
# Representations

A typed value an endpoint produced: a body, how long it stays valid, the golden
threads it depends on, and what it carries about its origin. A body is a buffer, a
body that opens a fresh reader on every read, or a one-shot stream; of the last two
only what is known before reading is kept. The buffer face of a representation is the
same record with a buffer for its body.
-/

namespace Ikigai

/-- A golden thread, by its name. -/
abbrev Thread := Text

abbrev ThreadSet := OrderedSet Thread

/-- Milliseconds since the Unix epoch. -/
abbrev Time := Nat

/-- The largest value of a 64-bit word, which `usize` and `u64` are here. -/
def wordMax : Nat := 2 ^ 64 - 1

/-- `saturating_add`. -/
def saturatingAdd (left right : Nat) : Nat := min (left + right) wordMax

/-- `saturating_mul`. -/
def saturatingMul (left right : Nat) : Nat := min (left * right) wordMax

structure ReprType where
  mediaType : Text
  params : List (Text × Text)
deriving DecidableEq, Repr

/-- How long a representation stays valid: not at all, until a deadline, for good. -/
inductive Expiry where
  | always
  | «at» (deadline : Time)
  | never
deriving DecidableEq, Repr

/-- The sooner-expiring of two. -/
def Expiry.mostRestrictive : Expiry → Expiry → Expiry
  | .always, _ => .always
  | .«at» _, .always => .always
  | .never, .always => .always
  | .«at» first, .«at» second => .«at» (min first second)
  | .«at» deadline, .never => .«at» deadline
  | .never, .«at» deadline => .«at» deadline
  | .never, .never => .never

/-- The expiry and threads of what produced a request's input. -/
structure Provenance where
  expiry : Expiry
  threads : ThreadSet
deriving DecidableEq

/-- Whether an upstream limits the answer it feeds at all. -/
def Provenance.contributes (incoming : Provenance) : Bool :=
  decide (incoming.expiry ≠ .never) || !incoming.threads.items.isEmpty

/-- What an origin says identifies the version of an answer. -/
structure OriginValidator where
  etag : Option Text
  lastModified : Option Text
deriving DecidableEq, Repr

inductive Body where
  | bytes (data : List UInt8)
  | replay (object : Nat) (length : Option Nat)
  | once (object : Nat)
deriving DecidableEq, Repr

namespace Body

/-- The length when it is known before reading. -/
def lenHint : Body → Option Nat
  | .bytes data => some data.length
  | .replay _ length => length
  | .once _ => none

def isOneShot : Body → Bool
  | .once _ => true
  | .bytes _ | .replay _ _ => false

/-- The buffer, when the body is one. -/
def asBytes : Body → Option (List UInt8)
  | .bytes data => some data
  | .replay _ _ | .once _ => none

/-- A second handle on a body that can be read again. -/
def share : Body → Option Body
  | .bytes data => some (.bytes data)
  | .replay object length => some (.replay object length)
  | .once _ => none

end Body

structure Representation where
  reprType : ReprType
  body : Body
  expiry : Expiry
  threads : ThreadSet
  validator : Option OriginValidator
  revalidated : Bool
deriving DecidableEq

namespace Representation

/-- The answer with its buffer copied: what a hit hands a buffer caller. -/
def copied (representation : Representation) : Option Representation :=
  representation.body.asBytes.map fun data => { representation with body := .bytes data }

/-- A second handle on the answer, when its body can be read again. -/
def share (representation : Representation) : Option Representation :=
  representation.body.share.map fun body => { representation with body := body }

theorem share_eq_some (representation shared : Representation)
    (handle : representation.share = some shared) : shared = representation := by
  obtain ⟨body, same, rfl⟩ := Option.map_eq_some_iff.mp handle
  have unchanged : body = representation.body := by
    cases kind : representation.body <;> simp_all [Body.share]
  rw [unchanged]

theorem copied_eq_some (representation buffer : Representation)
    (copy : representation.copied = some buffer) : buffer = representation := by
  obtain ⟨data, same, rfl⟩ := Option.map_eq_some_iff.mp copy
  have unchanged : Body.bytes data = representation.body := by
    cases kind : representation.body <;> simp_all [Body.asBytes]
  rw [unchanged]

/-- Anything but a one-shot body can be shared. -/
theorem share_of_reusable (representation : Representation)
    (reusable : representation.body.isOneShot = false) :
    representation.share = some representation := by
  cases representation with
  | mk reprType body expiry threads validator revalidated =>
    cases body with
    | bytes data => rfl
    | replay object length => rfl
    | once object => cases reusable

end Representation

end Ikigai
