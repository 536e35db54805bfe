import Ikigai.AlikeWalks
import Ikigai.Arrangement
import Ikigai.ScopeFingerprint
import Ikigai.ScopeStacking
import Ikigai.Transitions

/-!
# Chains built in one process

A process holds the chains built so far and the corridors it injected without a
name, in the order it numbered them. Every builder adds one chain, made from chains
already held. No step reuses a number, so an unnamed corridor's number stands for
one space in every chain of the process, and a step whose lengths would not fit in
64 bits does not happen.

In such a process equal fingerprints mean equal resolution, except where the walk
reads what the hash is not fed: the confined split, which is hashed only beside a
level stack, and the serials by which the seal table knows the levels of the stack,
which are hashed by name.
-/

namespace Ikigai

open Relation

section Building

universe u
variable {σ : Type u} [Blake3]

/-- The unnamed corridors injected so far, numbered from one, and the chains built. -/
structure Process (σ : Type u) [Blake3] where
  issued : List σ
  scopes : List (Scope σ)

namespace Process

def start : Process σ := ⟨[], []⟩

/-- One builder call: the chain it returns and the corridors numbered after it. -/
inductive Builds [Space σ] (process : Process σ) : Scope σ → List σ → Prop where
  | empty : Builds process Scope.empty process.issued
  | withSpace (scope : Scope σ) (space : σ) (held : scope ∈ process.scopes) :
      Builds process (scope.withSpace space (process.issued.length + 1))
        (if (Space.id space).isSome then process.issued else process.issued ++ [space])
  | withNamed (scope result : Scope σ) (name : Iri) (space : σ) (held : scope ∈ process.scopes)
      (agreed : scope.withNamed name space = some result) :
      Builds process result process.issued
  | withNamedAt (scope result : Scope σ) (name : Iri) (space : σ) (clock : Clock)
      (held : scope ∈ process.scopes)
      (agreed : scope.withNamedAt name space clock = some result) :
      Builds process result process.issued
  | stack (scope inner : Scope σ) (held : scope ∈ process.scopes)
      (heldInner : inner ∈ process.scopes) : Builds process (scope.stack inner) process.issued
  | sever (scope : Scope σ) (held : scope ∈ process.scopes) :
      Builds process scope.sever process.issued
  | confined (scope result : Scope σ) (name : Iri) (space : σ) (held : scope ∈ process.scopes)
      (agreed : scope.confined name space = some result) : Builds process result process.issued
  | descend (scope : Scope σ) (path : LevelPath σ) (held : scope ∈ process.scopes) :
      Builds process (scope.descend path) process.issued

/-- One step of the process adds one addressable chain. -/
def Step [Space σ] (before after : Process σ) : Prop :=
  ∃ result, before.Builds result after.issued ∧ result.core.Addressable ∧
    after.scopes = result :: before.scopes

/-- An unnamed corridor's number stands for the space it was issued to. -/
def Numbered (issued : List σ) (corridors : List (σ × CorridorIdentity)) : Prop :=
  ∀ space number, (space, .anonymous number) ∈ corridors →
    0 < number ∧ issued[number - 1]? = some space

/-- Every chain of the process is addressable and its numbers are issued ones. -/
def Sound (process : Process σ) : Prop :=
  ∀ scope ∈ process.scopes,
    scope.core.Addressable ∧ Numbered process.issued scope.core.corridors

omit [Blake3] in
/-- Serials that are numbered stay so when later ones are issued. -/
theorem numbered_grows (issued later : List σ) (corridors : List (σ × CorridorIdentity))
    (numbered : Numbered issued corridors) : Numbered (issued ++ later) corridors := by
  intro space number inside
  obtain ⟨positive, named⟩ := numbered space number inside
  obtain ⟨within, _⟩ := List.getElem?_eq_some_iff.mp named
  exact ⟨positive, (List.getElem?_append_left within).trans named⟩

omit [Blake3] in
/-- The corridors of stacked chains come from one of the two. -/
theorem stacked_corridors (other chain : Chain σ) (inner : other.Sound) (sound : chain.Sound)
    (corridor : σ × CorridorIdentity) (inside : corridor ∈ (Chain.stacked other chain).corridors) :
    corridor ∈ other.corridors ∨ corridor ∈ chain.corridors := by
  have parts : (Chain.stacked other chain).corridors =
      other.corridors.take other.confined ++
        (chain.corridors ++ other.corridors.drop other.confined) := by
    simp only [Chain.corridors, Chain.stacked, List.zip_eq_zipWith, List.take_zipWith,
      List.drop_zipWith]
    rw [List.zipWith_append (by simp [inner.parallel]), List.zipWith_append sound.parallel.symm]
  rw [parts, List.mem_append, List.mem_append] at inside
  rcases inside with front | host | back
  · exact Or.inl (List.mem_of_mem_take front)
  · exact Or.inr host
  · exact Or.inl (List.mem_of_mem_drop back)

/-- An injected space goes behind the other corridors. -/
theorem injected_corridors (scope : Scope σ) (identity : CorridorIdentity) (space : σ)
    (clock : Option Clock) :
    (scope.inject identity space clock).core.corridors =
      scope.core.corridors ++ [(space, identity)] := by
  simp only [Scope.inject, Scope.core_edit, Chain.corridors, Chain.refingerprint]
  exact List.zip_append scope.core_sound.parallel.symm

/-- A confined space goes in front of them. -/
theorem confine_corridors (scope : Scope σ) (name : Iri) (space : σ) :
    (scope.confine name space).core.corridors = (space, .named name) :: scope.core.corridors := by
  simp [Scope.confine, Scope.core_edit, Chain.corridors, Chain.refingerprint]

/-- Severing leaves the corridors. -/
theorem sever_corridors (scope : Scope σ) :
    scope.sever.core.corridors = scope.core.corridors := by
  simp [Scope.sever, Scope.core_edit, Chain.corridors, Chain.refingerprint]

/-- Descending leaves the corridors. -/
theorem descend_corridors (scope : Scope σ) (path : LevelPath σ) :
    (scope.descend path).core.corridors = scope.core.corridors := by
  have edited (keeps : ∀ chain : Chain σ, chain.Sound → ({ chain with levels := path }).Sound) :
      (scope.edit (fun chain => { chain with levels := path }) keeps).core.corridors =
        scope.core.corridors := by
    simp [Scope.core_edit, Chain.corridors, Chain.refingerprint]
  unfold Scope.descend
  split <;> split
  · rfl
  · exact edited _
  · rfl
  · exact edited _

omit [Blake3] in
/-- A named space in front needs no serial. -/
theorem numbered_named (issued : List σ) (corridors : List (σ × CorridorIdentity)) (space : σ)
    (name : Iri) (numbered : Numbered issued corridors) :
    Numbered issued ((space, .named name) :: corridors) := by
  intro other number inside
  rcases List.mem_cons.mp inside with same | inside
  · cases same
  · exact numbered other number inside

omit [Blake3] in
/-- A named space behind needs none either. -/
theorem numbered_pushed (issued : List σ) (corridors : List (σ × CorridorIdentity)) (space : σ)
    (name : Iri) (numbered : Numbered issued corridors) :
    Numbered issued (corridors ++ [(space, .named name)]) := by
  intro other number inside
  rcases List.mem_append.mp inside with inside | same
  · exact numbered other number inside
  · cases List.mem_singleton.mp same

variable [Space σ]

/-- Every builder returns a chain whose numbers are issued ones. -/
theorem builds_numbered (process : Process σ) (sound : process.Sound) (result : Scope σ)
    (issued : List σ) (built : process.Builds result issued) :
    Numbered issued result.core.corridors := by
  cases built with
  | empty => intro space number inside; cases inside
  | withSpace scope space held =>
    have numbered := (sound scope held).2
    unfold Scope.withSpace
    cases Space.id space with
    | some id =>
      rw [injected_corridors]
      exact numbered_pushed process.issued _ space id numbered
    | none =>
      rw [injected_corridors]
      intro other number inside
      rcases List.mem_append.mp inside with inside | same
      · exact numbered_grows process.issued [space] _ numbered other number inside
      · cases List.mem_singleton.mp same
        exact ⟨Nat.succ_pos _, by simp⟩
  | withNamed scope result name space held agreed =>
    unfold Scope.withNamed at agreed
    split at agreed
    · cases agreed
      rw [injected_corridors]
      exact numbered_pushed process.issued _ space name (sound scope held).2
    · cases agreed
  | withNamedAt scope result name space clock held agreed =>
    unfold Scope.withNamedAt at agreed
    split at agreed
    · cases agreed
      rw [injected_corridors]
      exact numbered_pushed process.issued _ space name (sound scope held).2
    · cases agreed
  | stack scope inner held heldInner =>
    rw [Scope.core_stack]
    intro space number inside
    rcases stacked_corridors inner.core scope.core inner.core_sound scope.core_sound _ inside with
      stacked | kept
    · exact (sound inner heldInner).2 space number stacked
    · exact (sound scope held).2 space number kept
  | sever scope held => rw [sever_corridors]; exact (sound scope held).2
  | confined scope result name space held agreed =>
    unfold Scope.confined at agreed
    split at agreed
    · cases agreed
      rw [confine_corridors]
      exact numbered_named process.issued _ space name (sound scope held).2
    · cases agreed
  | descend scope path held => rw [descend_corridors]; exact (sound scope held).2

/-- No builder takes an issued number back. -/
theorem builds_issue (process : Process σ) (result : Scope σ) (issued : List σ)
    (built : process.Builds result issued) : ∃ later, issued = process.issued ++ later := by
  cases built with
  | withSpace scope space held =>
    split
    · exact ⟨[], (List.append_nil _).symm⟩
    · exact ⟨[space], rfl⟩
  | empty | withNamed | withNamedAt | stack | sever | confined | descend =>
    exact ⟨[], (List.append_nil _).symm⟩

/-- A step keeps the process sound: every serial stands for the space it was issued for. -/
theorem step_sound (before after : Process σ) (sound : before.Sound) (step : Step before after) :
    after.Sound := by
  obtain ⟨result, built, addressable, scopes⟩ := step
  obtain ⟨later, grown⟩ := builds_issue before result after.issued built
  intro scope held
  rw [scopes] at held
  rcases List.mem_cons.mp held with rfl | held
  · exact ⟨addressable, builds_numbered before sound scope after.issued built⟩
  · obtain ⟨fits, numbered⟩ := sound scope held
    exact ⟨fits, grown ▸ numbered_grows before.issued later _ numbered⟩

/-- So does a run, from the start. -/
theorem run_sound (process : Process σ) (run : ReflTransGen Step start process) :
    process.Sound :=
  Transitions.kept_by_run Step Sound step_sound start process run (fun _ held => nomatch held)

/-- The hash tells apart the bytes the process fed it, and never answers zero. -/
structure HashInjective (process : Process σ) : Prop where
  injective : ∀ left ∈ process.scopes, ∀ right ∈ process.scopes,
    left.chain.isSome → right.chain.isSome →
    Blake3.digest left.core.fed = Blake3.digest right.core.fed → left.core.fed = right.core.fed
  nonzero : ∀ scope ∈ process.scopes, scope.chain.isSome → Blake3.digest scope.core.fed ≠ 0

end Process

/-- Like-named corridors and like-named levels hold the same doors, and neither an
unnamed corridor nor the root holds other doors in another chain. -/
structure DoorsByName [Space σ] (left right : Scope σ) (root : σ) : Prop where
  corridors : ∀ name space space', (space, .named name) ∈ left.core.corridors →
    (space', .named name) ∈ right.core.corridors → SameDoors space space'
  unnamed : ∀ number space, (space, .anonymous number) ∈ left.core.corridors →
    SameDoors space space
  levels : ∀ level ∈ left.core.levels, ∀ level' ∈ right.core.levels,
    level.name = level'.name → SameDoors level.inner level'.inner
  root : SameDoors root root

/-- The confined splits make no difference to a request: its name is not sealed, the
splits are one, a corridor ahead of both splits answers, or none between them would. -/
def SplitHarmless [Space σ] (left right : Scope σ) (request : Request) (seals : Seals) : Prop :=
  let shallow := min left.core.confined right.core.confined
  let deep := max left.core.confined right.core.confined
  Scope.sealedBy request seals = none ∨ left.core.confined = right.core.confined ∨
    left.Answers request (left.core.corridors.drop deep) ∨
    ¬ left.Answers request ((left.core.corridors.take deep).drop shallow)

/-- What the hash is not fed makes no difference to a request: neither the confined splits nor, on
chains where no corridor of the host answers it, the serials of the levels. -/
def Harmless [Space σ] (left right : Scope σ) (request : Request) (root : σ) (seals : Seals) :
    Prop :=
  SplitHarmless left right request seals ∧
    (left.Answers request (left.core.corridors.drop left.core.confined) ∨
      Scope.StacksHarmless left right request root seals)

namespace Scope

/-- A fingerprint is the digest of what the chain feeds, the clock left out. -/
theorem fingerprint_eq_core (scope : Scope σ) : scope.fingerprint = scope.core.digest := by
  unfold fingerprint core
  cases held : scope.chain with
  | none => rfl
  | some chain => exact scope.fingerprinted chain (by rw [held]; rfl)

/-- A chain that was made feeds its own fingerprint. -/
theorem digest_of_some (scope : Scope σ) (held : scope.chain.isSome) :
    scope.core.digest = Blake3.digest scope.core.fed := by
  obtain ⟨chain, found⟩ := Option.isSome_iff_exists.mp held
  have occupied : scope.core.isEmpty = false := by
    have behind : scope.core = chain := by simp [core, found]
    rw [behind]
    exact scope.occupied chain (by rw [found]; rfl)
  simp [Chain.digest, occupied]

/-- Without one the fingerprint is that of the blank chain. -/
theorem core_of_none (scope : Scope σ) (bare : scope.chain.isSome = false) :
    scope.core = Chain.blank := by
  have none : scope.chain = none := by simpa using bare
  simp [core, none]

/-- Without collisions, equal fingerprints belong to chains that agree. -/
theorem equal_fingerprints_agree [Space σ] (process : Process σ) (sound : process.Sound)
    (hash : process.HashInjective) (left right : Scope σ) (held : left ∈ process.scopes)
    (held' : right ∈ process.scopes) (same : left.fingerprint = right.fingerprint) :
    left.core.AgreesWith right.core := by
  rw [fingerprint_eq_core, fingerprint_eq_core] at same
  cases someLeft : left.chain.isSome <;> cases someRight : right.chain.isSome
  · rw [core_of_none left someLeft, core_of_none right someRight]
    exact ⟨rfl, rfl, rfl, fun _ => rfl⟩
  · rw [core_of_none left someLeft, digest_of_some right someRight] at same
    exact absurd same.symm (hash.nonzero right held' someRight)
  · rw [core_of_none right someRight, digest_of_some left someLeft] at same
    exact absurd same (hash.nonzero left held someLeft)
  · rw [digest_of_some left someLeft, digest_of_some right someRight] at same
    exact Chain.fed_determines left.core right.core (sound left held).1 (sound right held').1
      (hash.injective left held right held' someLeft someRight same)

variable [Space σ]

/-- Corridors under one list of identities are alike when every two under one
identity hold the same doors. -/
theorem corridors_alike (spaces spaces' : List σ) (identities : List CorridorIdentity)
    (width : identities.length = spaces.length) (width' : identities.length = spaces'.length)
    (doors : ∀ identity space space', (space, identity) ∈ spaces.zip identities →
      (space', identity) ∈ spaces'.zip identities → SameDoors space space') :
    List.Forall₂ CorridorsAlike (spaces.zip identities) (spaces'.zip identities) := by
  induction identities generalizing spaces spaces' with
  | nil => simp
  | cons identity rest ih =>
    cases spaces with
    | nil => cases width
    | cons space others =>
      cases spaces' with
      | nil => cases width'
      | cons space' others' =>
        refine List.Forall₂.cons ⟨rfl, ?_⟩ ?_
        · exact doors identity space space' (List.mem_cons_self ..) (List.mem_cons_self ..)
        · exact ih others others' (Nat.succ.inj width) (Nat.succ.inj width')
            fun other one two first second => doors other one two
              (List.mem_cons_of_mem _ first) (List.mem_cons_of_mem _ second)

/-- Level stacks of the same names are alike frame by frame when every two levels of
one name hold the same doors. -/
theorem frames_alike (path path' : LevelPath σ)
    (names : path.map LevelCore.name = path'.map LevelCore.name)
    (doors : ∀ level ∈ path, ∀ level' ∈ path', level.name = level'.name →
      SameDoors level.inner level'.inner) :
    List.Forall₂ FramesAlike path path' := by
  induction path generalizing path' with
  | nil =>
    rw [List.map_eq_nil_iff.mp names.symm]
    exact List.Forall₂.nil
  | cons level outward ih =>
    cases path' with
    | nil => cases names
    | cons level' outward' =>
      simp only [List.map_cons, List.cons.injEq] at names
      refine List.Forall₂.cons ⟨names.1, ?_⟩ (ih outward' names.2 ?_)
      · exact doors level (List.mem_cons_self ..) level' (List.mem_cons_self ..) names.1
      · exact fun frame inside frame' inside' => doors frame (List.mem_cons_of_mem _ inside) frame'
          (List.mem_cons_of_mem _ inside')

/-- Chains of one process that agree, with doors by name, are alike. -/
theorem agreeing_chains_alike (process : Process σ) (sound : process.Sound)
    (left right : Scope σ) (held : left ∈ process.scopes) (held' : right ∈ process.scopes)
    (root : σ) (agree : left.core.AgreesWith right.core) (doors : DoorsByName left right root) :
    ChainsAlike left.core right.core := by
  refine ⟨agree.severed, ?_, frames_alike _ _ agree.levels doors.levels⟩
  have sound' := right.core_sound.parallel
  unfold Chain.corridors
  rw [← agree.identities] at sound' ⊢
  refine corridors_alike _ _ _ left.core_sound.parallel sound' ?_
  intro identity space space' inside inside'
  have inRight : (space', identity) ∈ right.core.corridors := by
    unfold Chain.corridors
    rw [← agree.identities]
    exact inside'
  cases identity with
  | named name => exact doors.corridors name space space' inside inRight
  | anonymous number =>
    have first := ((sound left held).2 space number inside).2
    have second := ((sound right held').2 space' number inRight).2
    have same : space = space' := Option.some.inj (first.symm.trans second)
    exact same ▸ doors.unnamed number space inside

/-- Corridors that are alike one by one answer alike, under either chain. -/
theorem answers_alike (left right : Scope σ) (request : Request)
    (corridors corridors' : List (σ × CorridorIdentity))
    (alike : List.Forall₂ CorridorsAlike corridors corridors') :
    left.Answers request corridors ↔ right.Answers request corridors' := by
  induction alike with
  | nil => simp [Answers]
  | cons same _ ih =>
    simp only [Answers, List.exists_mem_cons_iff, same.2 request left right] at ih ⊢
    rw [ih]

omit [Blake3] [Space σ] in
/-- A chain whose confined split differs from that of a chain it agrees with has no
level stack, and neither has the other: the split is hashed beside a stack. -/
theorem split_apart_flat (left right : Chain σ) (agree : left.AgreesWith right)
    (apart : left.confined ≠ right.confined) : left.levels = [] ∧ right.levels = [] := by
  have flat : left.levels = [] := by
    by_contra stacked
    exact apart (agree.confined stacked)
  refine ⟨flat, ?_⟩
  have names := agree.levels
  rw [flat] at names
  exact List.map_eq_nil_iff.mp names.symm

/-- Where neither chain has a level stack no frame decides. -/
theorem flat_harmless (left right : Scope σ) (request : Request) (root : σ)
    (seals : Seals) (flat : left.core.levels = []) (flat' : right.core.levels = []) :
    StacksHarmless left right request root seals :=
  .neither (by simp [deciding, flat]) (by simp [deciding, flat'])

end Scope

end Building

/-!
One signing corridor, injected by a host into a severed chain and confined by an
endpoint onto the empty one, feeds the hash the same bytes. The host sealed the
names it answers, so the first chain answers them and the second misses.
-/

namespace SplitExample

/-- A digest that keeps the first byte, the severing. -/
local instance firstByte : Blake3 := ⟨fun bytes => (bytes.headD 0).toUInt64⟩

local instance anyIri : IriSyntax := ⟨fun _ => true, fun _ => []⟩

def signerName : Iri := "urn:ctx:signer".toList

def signer : Arrangement Empty :=
  .endpointSpace [(.exact "urn:sign:x".toList, .bound 1 false)] none

def bare : Arrangement Empty := .endpointSpace [] none

def injected : Scope (Arrangement Empty) := Scope.empty.inject (.named signerName) signer none

def severed : Scope (Arrangement Empty) := injected.sever

def confined : Scope (Arrangement Empty) := Scope.empty.confine signerName signer

def process : Process (Arrangement Empty) := ⟨[], [confined, severed, injected, Scope.empty]⟩

def sealing : Seals := ⟨Seals.coreClaims ++ [("urn:sign:".toList, .host)], [], false⟩

def signing : Request := Request.new .source "urn:sign:x".toList

/-- Chains of named corridors, no level and one confinement can be told apart by what they feed.
-/
theorem addressable (chain : Chain (Arrangement Empty))
    (named : ∀ identity ∈ chain.identities, identity = .named signerName)
    (shallow : chain.confined ≤ 1) (flat : chain.levels = []) : chain.Addressable := by
  refine ⟨?_, ?_, ?_, by simp [flat]⟩
  · intro name inside
    cases named _ inside
    unfold Hashing.StrFits Hashing.Fits
    decide
  · intro number inside
    cases named _ inside
  · exact Nat.lt_of_le_of_lt shallow (by decide)

/-- The example's process is reached by its steps. -/
theorem reached : ReflTransGen Process.Step Process.start process := by
  have first : Process.Step (Process.start : Process (Arrangement Empty)) ⟨[], [Scope.empty]⟩ :=
    ⟨Scope.empty, .empty, addressable _ (by decide) (by decide) rfl, rfl⟩
  have second : Process.Step (⟨[], [Scope.empty]⟩ : Process (Arrangement Empty))
      ⟨[], [injected, Scope.empty]⟩ :=
    ⟨injected, .withNamed Scope.empty injected signerName signer (by simp) rfl,
      addressable _ (by decide) (by decide) rfl, rfl⟩
  have third : Process.Step (⟨[], [injected, Scope.empty]⟩ : Process (Arrangement Empty))
      ⟨[], [severed, injected, Scope.empty]⟩ :=
    ⟨severed, .sever injected (by simp), addressable _ (by decide) (by decide) rfl, rfl⟩
  have fourth : Process.Step (⟨[], [severed, injected, Scope.empty]⟩ :
      Process (Arrangement Empty)) process :=
    ⟨confined, .confined Scope.empty confined signerName signer (by simp) rfl,
      addressable _ (by decide) (by decide) rfl, rfl⟩
  exact .tail (.tail (.tail (.tail .refl first) second) third) fourth

/-- Both chains feed the same bytes, though one of them is severed. -/
theorem same_bytes : severed.core.fed = confined.core.fed := by decide

/-- No digest of it collides. -/
theorem collision_free : process.HashInjective := by
  have bytes : Blake3.digest severed.core.fed ≠ Blake3.digest injected.core.fed := by decide
  have bytes' : Blake3.digest confined.core.fed ≠ Blake3.digest injected.core.fed := by decide
  constructor
  · intro left held right held' some some' same
    simp only [process, List.mem_cons, List.not_mem_nil, or_false] at held held'
    rcases held with rfl | rfl | rfl | rfl <;> rcases held' with rfl | rfl | rfl | rfl <;>
      first
        | rfl
        | exact same_bytes
        | exact same_bytes.symm
        | exact absurd same bytes
        | exact absurd same.symm bytes
        | exact absurd same bytes'
        | exact absurd same.symm bytes'
        | exact absurd some (by decide)
        | exact absurd some' (by decide)
  · intro scope held some
    simp only [process, List.mem_cons, List.not_mem_nil, or_false] at held
    rcases held with rfl | rfl | rfl | rfl
    · decide
    · decide
    · decide
    · exact absurd some (by decide)

/-- Whatever the two chains hold under one name has the same doors. -/
theorem doors : DoorsByName severed confined bare := by
  have alike (space : Arrangement Empty) : SameDoors space space := fun request asked asked' =>
    Arrangement.resolve_blind (fun object => nomatch object) asked asked' space request
  refine ⟨?_, fun _ space _ => alike space, nofun, alike bare⟩
  intro name space space' inside inside'
  have here : (space, CorridorIdentity.named name) ∈ [(signer, .named signerName)] := inside
  have there : (space', CorridorIdentity.named name) ∈ [(signer, .named signerName)] := inside'
  cases List.mem_singleton.mp here
  cases List.mem_singleton.mp there
  exact alike signer

/-- The severed chain gets the signer that was injected. -/
theorem answered_when_injected :
    outcome (severed.resolveIn signing bare sealing) =
      .ok (some ⟨.bound 1 false, [], none, some signerName, []⟩) := rfl

/-- The confined chain gets nothing. -/
theorem missed_when_confined :
    outcome (confined.resolveIn signing bare sealing) = .ok none := rfl

/-- Two level objects of one name, with the same doors. -/
def module (serial : Nat) : LevelCore (Arrangement Empty) :=
  ⟨"urn:level:mod".toList, serial, signer, ["urn:sign:".toList], none⟩

/-- The level owns the names it signs, and the kernel's root shows its first object alone. -/
def owned : Seals :=
  ⟨Seals.coreClaims ++ [("urn:sign:".toList, .level "urn:level:mod".toList)],
    [("urn:level:mod".toList, 1)], false⟩

def descended (serial : Nat) : Scope (Arrangement Empty) := Scope.empty.descend [module serial]

-- The hash is fed the level's name; the walk asks the table for its serial.
example : (descended 1).fingerprint = (descended 2).fingerprint := rfl

example : outcome ((descended 2).resolveIn signing bare owned) = .ok none := rfl

example : outcome ((descended 1).resolveIn signing bare owned) =
    .ok (some ⟨.bound 1 false, [], none, some "urn:level:mod".toList, ["urn:level:mod".toList]⟩) :=
  rfl

end SplitExample

end Ikigai
