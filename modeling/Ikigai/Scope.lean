import Ikigai.Hashing
import Ikigai.Request
import Ikigai.Topology

/-!
# Resolution chains

A `Scope` is the chain of spaces a request is resolved against: corridors a host
injected, the levels the issuing endpoint was found in, corridors an endpoint
confined itself to, and the root unless it was severed. Every builder goes through
one `edit`, which unshares the chain, applies the step, collapses a chain with
nothing on it to the null handle and recomputes the fingerprint.

A space is an object of some type; what it answers is the class `Space`. What
holds of every chain a builder returns is carried by `Scope` itself, so a chain
that breaks it cannot be written down. Reference counting is not modelled: two
handles on one chain are one value. The observer that a dry run passes to the walk
is left out; the walk is the one resolution takes.
-/

namespace Ikigai

universe u

/-- An endpoint object: one a host bound, which may be a limiter; the limiter ⊥ of
this crate; or one an alias overlay answers with, a refusal or a view. -/
inductive Endpoint where
  | bound (object : Nat) (limiter : Bool)
  | bottom
  | refusal (logical : Iri)
  | view (logical canonical : Iri)
deriving DecidableEq, Repr

/-- Whether a hit on the endpoint is a hole rather than an answer. -/
def Endpoint.isLimiter : Endpoint → Bool
  | .bound _ limiter => limiter
  | .bottom => true
  | .refusal _ | .view _ _ => false

/-- A clock object. No modelled function reads it. -/
structure Clock where
  object : Nat
deriving DecidableEq, Repr

/-- A level object: its name, its process-unique serial, the space it encloses,
the prefixes it seals and the namespace it accepted. -/
structure LevelCore (σ : Type u) where
  name : Iri
  serial : Nat
  inner : σ
  seals : List Text
  home : Option Text

/-- The levels a door was found in, innermost first. -/
abbrev LevelPath (σ : Type u) := List (LevelCore σ)

/-- The same level objects in the same order. A serial is given to one object. -/
def LevelPath.sameAs {σ : Type u} (path other : LevelPath σ) : Bool :=
  decide (path.map LevelCore.serial = other.map LevelCore.serial)

/-- A successful resolution. -/
structure Resolved (σ : Type u) where
  endpoint : Endpoint
  bindings : List (Text × Text)
  canonical : Option Iri
  answeredBy : Option Iri
  levels : LevelPath σ

namespace Resolved

variable {σ : Type u}

/-- Name the answerer; an answerer already named is kept. -/
def withAnsweredBy (hit : Resolved σ) (space : Iri) : Resolved σ :=
  { hit with answeredBy := some (hit.answeredBy.getD space) }

/-- Report a rewrite; a rewrite already reported is kept. -/
def withCanonical (hit : Resolved σ) (canonical : Iri) : Resolved σ :=
  { hit with canonical := some (hit.canonical.getD canonical) }

end Resolved

/-- The outcome of resolving a request against a space. -/
inductive Resolution (σ : Type u) where
  | hit (resolved : Resolved σ)
  | miss

/-- What a corridor is fingerprinted by: the name claimed for it, or, with no
name, a process-unique number. -/
inductive CorridorIdentity where
  | named (name : Iri)
  | anonymous (number : Nat)
deriving DecidableEq, Repr

/-- A chain: the injected corridors outermost first, parallel to their identities,
the first `confined` of them placed by confinement. -/
structure Chain (σ : Type u) where
  injected : List σ
  identities : List CorridorIdentity
  severed : Bool
  confined : Nat
  levels : LevelPath σ
  fingerprint : UInt64
  clock : Option Clock

namespace Chain

variable {σ : Type u}

/-- Nothing injected, no level, root present. -/
def blank : Chain σ where
  injected := []
  identities := []
  severed := false
  confined := 0
  levels := []
  fingerprint := 0
  clock := none

/-- The corridors with their identities, outermost first. -/
def corridors (chain : Chain σ) : List (σ × CorridorIdentity) :=
  chain.injected.zip chain.identities

def isEmpty (chain : Chain σ) : Bool :=
  chain.injected.isEmpty && !chain.severed && chain.levels.isEmpty

/-- What one corridor's identity feeds to the hash. -/
def feedIdentity : CorridorIdentity → List UInt8
  | .named name => Hashing.feedU8 1 ++ Hashing.feedStr name
  | .anonymous number => Hashing.feedU8 2 ++ Hashing.toLeBytes number

/-- The level stack, only when there is one, and with it the confined split. -/
def feedLevels (chain : Chain σ) : List UInt8 :=
  if chain.levels.isEmpty then []
  else Hashing.feedU8 3 ++ Hashing.toLeBytes chain.confined ++
    chain.levels.flatMap (fun level => Hashing.feedStr level.name)

/-- The bytes a non-empty chain feeds to the hash. -/
def fed (chain : Chain σ) : List UInt8 :=
  Hashing.feedU8 (if chain.severed then 2 else 1) ++
    (chain.identities.flatMap feedIdentity ++ chain.feedLevels)

/-- What every step of a builder keeps: identities run parallel to corridors, the
confined corridors are leading ones, confinement cut the root off, and a clock
came with a corridor. -/
structure Sound (chain : Chain σ) : Prop where
  parallel : chain.identities.length = chain.injected.length
  leading : chain.confined ≤ chain.injected.length
  cut : 0 < chain.confined → chain.severed = true
  clocked : chain.clock.isSome → chain.injected ≠ []

theorem blank_sound : (blank : Chain σ).Sound :=
  ⟨rfl, Nat.le_refl 0, by simp [blank], by simp [blank]⟩

/-- The level stack once a chain is stacked on: its own if it carries one; else none
when it brought confined corridors; else the one that was there. -/
def levelsAfter (behind : List σ) (levels inner : LevelPath σ) : LevelPath σ :=
  match inner, behind with
  | [], [] => levels
  | [], _ :: _ => []
  | level :: rest, _ => level :: rest

/-- The edit that `stack` makes: `other`'s host corridors are appended, its
confined ones go in front as a block and leave the level stack behind, and its
level stack, severing and clock override. -/
def stacked (other chain : Chain σ) : Chain σ :=
  let behind := other.injected.take other.confined
  let host := other.injected.drop other.confined
  let behindIds := other.identities.take other.confined
  let hostIds := other.identities.drop other.confined
  { injected := behind ++ (chain.injected ++ host)
    identities := behindIds ++ (chain.identities ++ hostIds)
    severed := other.severed || chain.severed
    confined := chain.confined + behind.length
    levels := levelsAfter behind chain.levels other.levels
    fingerprint := chain.fingerprint
    clock := other.clock <|> chain.clock }

theorem stacked_sound (other chain : Chain σ) (inner : other.Sound) (sound : chain.Sound) :
    (stacked other chain).Sound := by
  have width : (other.injected.take other.confined).length = other.confined :=
    List.length_take_of_le inner.leading
  refine ⟨?_, ?_, ?_, ?_⟩
  · simp only [stacked, List.length_append, List.length_take, List.length_drop,
      inner.parallel, sound.parallel]
  · simp only [stacked, List.length_append]
    have bound := sound.leading
    omega
  · intro confined
    simp only [stacked, width, Bool.or_eq_true] at confined ⊢
    rcases Nat.eq_zero_or_pos other.confined with unconfined | behind
    · exact Or.inr (sound.cut (by omega))
    · exact Or.inl (inner.cut behind)
  · intro clocked
    simp only [stacked] at clocked ⊢
    cases ticking : other.clock with
    | none =>
      have present : chain.injected ≠ [] := sound.clocked (by simpa [ticking] using clocked)
      simp [present]
    | some clock =>
      have present : other.injected ≠ [] := inner.clocked (by simp [ticking])
      intro bare
      obtain ⟨first, second⟩ := List.append_eq_nil_iff.mp bare
      obtain ⟨_, third⟩ := List.append_eq_nil_iff.mp second
      apply present
      rw [← List.take_append_drop other.confined other.injected, first, third]
      rfl

variable [Blake3]

def digest (chain : Chain σ) : UInt64 :=
  if chain.isEmpty then 0 else Blake3.digest chain.fed

def refingerprint (chain : Chain σ) : Chain σ :=
  { chain with fingerprint := chain.digest }

end Chain

/-- The handle on a chain; no chain at all is the empty chain. A chain behind a
handle is sound, has something on it, and carries its own fingerprint. -/
@[ext] structure Scope (σ : Type u) [Blake3] where
  chain : Option (Chain σ)
  sound : ∀ held ∈ chain, held.Sound
  occupied : ∀ held ∈ chain, held.isEmpty = false
  fingerprinted : ∀ held ∈ chain, held.fingerprint = held.digest

namespace Scope

variable {σ : Type u} [Blake3]

/-- Nothing injected, root present. -/
def empty : Scope σ := ⟨none, by simp, by simp, by simp⟩

/-- The chain behind the handle, written out when there is none. -/
def core (scope : Scope σ) : Chain σ := scope.chain.getD Chain.blank

theorem core_sound (scope : Scope σ) : scope.core.Sound := by
  unfold core
  cases held : scope.chain with
  | none => exact Chain.blank_sound
  | some chain => exact scope.sound chain (by rw [held]; rfl)

/-- Apply a builder step: start from the held chain or a blank one, collapse the
result to the null handle when nothing is left on it, and refingerprint it. -/
def edit (scope : Scope σ) (step : Chain σ → Chain σ)
    (keeps : ∀ chain, chain.Sound → (step chain).Sound) : Scope σ :=
  if bare : (step scope.core).isEmpty then empty
  else
    { chain := some (step scope.core).refingerprint
      sound := by
        rintro _ ⟨⟩
        have kept := keeps scope.core scope.core_sound
        exact ⟨kept.parallel, kept.leading, kept.cut, kept.clocked⟩
      occupied := by
        rintro _ ⟨⟩
        simpa [Chain.isEmpty, Chain.refingerprint] using bare
      fingerprinted := by
        rintro _ ⟨⟩
        rfl }

end Scope

/-- A space maps requests to endpoints by resolution. It sees the chain it is
resolved in, may claim an identity, and shows its arrangement. -/
class Space (σ : Type u) [Blake3] where
  resolve : σ → Request → Scope σ → Resolution σ
  id : σ → Option Iri
  topology : σ → Topology

namespace Scope

variable {σ : Type u} [Blake3]

/-- Push a corridor innermost under an identity, with the clock derived at the
injection if there is one. -/
def inject (scope : Scope σ) (identity : CorridorIdentity) (space : σ)
    (clock : Option Clock) : Scope σ :=
  scope.edit
    (fun chain =>
      { chain with
        injected := chain.injected ++ [space]
        identities := chain.identities ++ [identity]
        clock := clock <|> chain.clock })
    (by
      intro chain sound
      refine ⟨?_, ?_, sound.cut, by simp⟩
      · simp [sound.parallel]
      · simpa using Nat.le_succ_of_le sound.leading)

/-- A named corridor's name must agree with the identity the space claims for
itself, if it claims one. -/
def checkClaim [Space σ] (name : Iri) (space : σ) : Bool :=
  match Space.id space with
  | some own => decide (own = name)
  | none => true

/-- Inject under the identity the space claims, or under a fresh number. -/
def withSpace [Space σ] (scope : Scope σ) (space : σ) (number : Nat) : Scope σ :=
  match Space.id space with
  | some id => scope.inject (.named id) space none
  | none => scope.inject (.anonymous number) space none

/-- Inject a named corridor; a disagreement with the space's own name panics. -/
def withNamed [Space σ] (scope : Scope σ) (name : Iri) (space : σ) : Option (Scope σ) :=
  if checkClaim name space then some (scope.inject (.named name) space none) else none

/-- Inject a named temporal corridor together with the clock derived from it. -/
def withNamedAt [Space σ] (scope : Scope σ) (name : Iri) (space : σ) (clock : Clock) :
    Option (Scope σ) :=
  if checkClaim name space then some (scope.inject (.named name) space (some clock)) else none

/-- Cut the root off the chain. -/
def sever (scope : Scope σ) : Scope σ :=
  scope.edit (fun chain => { chain with severed := true })
    (fun _ sound => ⟨sound.parallel, sound.leading, fun _ => rfl, sound.clocked⟩)

/-- Put a space where the root was: behind everything injected, the level stack
left behind, the root cut off. -/
def confine (scope : Scope σ) (name : Iri) (space : σ) : Scope σ :=
  scope.edit
    (fun chain =>
      { chain with
        injected := space :: chain.injected
        identities := .named name :: chain.identities
        confined := chain.confined + 1
        levels := []
        severed := true })
    (by
      intro chain sound
      refine ⟨?_, ?_, fun _ => rfl, by simp⟩
      · simp [sound.parallel]
      · simpa using sound.leading)

/-- `confine` behind the check that the name agrees with the space's own. -/
def confined [Space σ] (scope : Scope σ) (name : Iri) (space : σ) : Option (Scope σ) :=
  if checkClaim name space then some (scope.confine name space) else none

/-- The scope an endpoint found along `path` runs in: only the level stack changes. -/
def descend (scope : Scope σ) (path : LevelPath σ) : Scope σ :=
  if (match scope.chain with
      | none => path.isEmpty
      | some chain => LevelPath.sameAs chain.levels path) then scope
  else
    scope.edit (fun chain => { chain with levels := path })
      (fun _ sound => ⟨sound.parallel, sound.leading, sound.cut, sound.clocked⟩)

/-- Stack `inner` onto this chain. -/
def stack (scope inner : Scope σ) : Scope σ :=
  match held : inner.chain with
  | none => scope
  | some other =>
    scope.edit other.stacked
      (fun chain sound => other.stacked_sound chain (inner.sound other (by rw [held]; rfl)) sound)

/-- The chain's fingerprint; zero for the empty chain. -/
def fingerprint (scope : Scope σ) : UInt64 :=
  match scope.chain with
  | none => 0
  | some chain => chain.fingerprint

end Scope

end Ikigai
