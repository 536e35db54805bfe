import Ikigai.AlikeWalks
import Ikigai.Arrangement
import Ikigai.SealTable

/-!
# Who answers a sealed name

Frames and the root are checked by target and by canonical, and a sealed target is
never asked of a confined corridor. A hit from a confined corridor is not checked,
though, so a confined corridor asked for an unsealed name can report a sealed
canonical. In an accepted table that is the only way a name sealed by the host or by
a level is answered by anyone but its owner or a corridor the host injected.
-/

namespace Ikigai

section Walking

universe u
variable {σ : Type u}

namespace Seals

/-- No name is refused exactly when each sealed one is accepted by its owner. -/
theorem first_refused_none (seals : Seals) (path : LevelPath σ) (names : List Iri) :
    seals.firstRefused path names = none ↔
      ∀ name ∈ names, ∀ owner, seals.ownerOf name = some owner →
        seals.accepts owner path.head? = true := by
  induction names with
  | nil => simp [firstRefused]
  | cons name rest ih =>
    unfold firstRefused
    rw [List.forall_mem_cons]
    cases owned : seals.ownerOf name with
    | none => simp [ih]
    | some owner =>
      by_cases accepted : seals.accepts owner path.head? = true
      · simp [accepted, ih]
      · simp [accepted]

theorem admit_names_ok (seals : Seals) (path : LevelPath σ) (names : List Iri)
    (admitted : seals.admitNames names path = .ok ()) : ∀ name ∈ names, ∀ owner,
      seals.ownerOf name = some owner → seals.accepts owner path.head? = true := by
  unfold admitNames at admitted
  split at admitted
  · cases admitted
  · split at admitted
    · cases admitted
    · rename_i quiet
      exact (first_refused_none seals path names).mp quiet

end Seals

/-- An admitted resolution is the one that was checked. -/
theorem admit_hit_same (resolution admitted : Resolution σ) (request : Request) (seals : Seals)
    (passed : admitHit resolution request seals = .ok admitted) : admitted = resolution := by
  unfold admitHit at passed
  cases resolution with
  | miss => exact (Except.ok.inj passed).symm
  | hit hit =>
    simp only at passed
    split at passed
    · split at passed
      · exact (Except.ok.inj passed).symm
      · cases passed
    · exact (Except.ok.inj passed).symm

/-- An admitted hit on a real endpoint is accepted by the owner of each sealed name
it answers. -/
theorem admit_hit_accepts (tree : Topology) (host : List Text) (seals : Seals)
    (accepted : seals.Accepted tree host) (request : Request) (hit : Resolved σ)
    (passed : admitHit (.hit hit) request seals = .ok (.hit hit))
    (real : hit.endpoint.isLimiter = false) (claim : Claim) (claimed : claim ∈ seals.claims)
    (foreign : claim.2 ≠ .core) (name : Iri) (named : name ∈ request.target :: hit.canonical.toList)
    (under : claim.1 <+: name) : seals.accepts claim.2 hit.levels.head? = true := by
  have enforced : seals.trivial = false := by
    cases bare : seals.trivial with
    | false => rfl
    | true =>
      rw [accepted.trivial bare] at claimed
      obtain ⟨head, _, rfl⟩ := List.mem_map.mp claimed
      exact absurd rfl foreign
  unfold admitHit at passed
  simp only [real, enforced, Bool.false_and, Bool.not_false, Bool.or_true, Bool.and_true,
    if_true] at passed
  cases admitted : seals.admitNames (request.target :: hit.canonical.toList) hit.levels with
  | error breach => simp [admitted] at passed
  | ok done =>
    exact Seals.admit_names_ok seals hit.levels _ admitted name named claim.2
      (Seals.owner_of_claim tree host seals accepted name claim claimed under)

namespace Scope

variable [Blake3] [Space σ]

/-- The kinds of members a walk asks. -/
inductive Member where
  | host
  | frame
  | confined
  | root
deriving DecidableEq, Repr

/-- The host's corridors in the order they are asked. -/
def hostCorridors (scope : Scope σ) : List (σ × CorridorIdentity) :=
  (scope.core.corridors.drop scope.core.confined).reverse

/-- The confined corridors in the order they are asked. -/
def confinedCorridors (scope : Scope σ) : List (σ × CorridorIdentity) :=
  (scope.core.corridors.take scope.core.confined).reverse

/-- The member the walk takes its answer from: the first that hits, else the root. -/
def answeringMember (scope : Scope σ) (request : Request) (seals : Seals) : Member :=
  if (scope.firstCorridor request scope.hostCorridors).isSome then .host
  else if (scope.frameHit request seals (sealedBy request seals) scope.core.levels).isSome then
    .frame
  else if (sealedBy request seals).isNone &&
      (scope.firstCorridor request scope.confinedCorridors).isSome then .confined
  else .root

/-- What the walk did, member by member, when it returned a hit. -/
theorem answering_member_hit (scope : Scope σ) (request : Request) (root : σ) (seals : Seals)
    (hit : Resolved σ) (answered : scope.resolveIn request root seals = .ok (.hit hit)) :
    match scope.answeringMember request seals with
    | .host => scope.firstCorridor request scope.hostCorridors = some hit
    | .frame => scope.firstCorridor request scope.hostCorridors = none ∧
        scope.frameHit request seals (sealedBy request seals) scope.core.levels = some hit ∧
        admitHit (.hit hit) request seals = .ok (.hit hit)
    | .confined => sealedBy request seals = none ∧
        scope.firstCorridor request scope.hostCorridors = none ∧
        scope.frameHit request seals (sealedBy request seals) scope.core.levels = none ∧
        scope.firstCorridor request scope.confinedCorridors = some hit
    | .root => Space.resolve root request scope = .hit hit ∧
        admitHit (.hit hit) request seals = .ok (.hit hit) := by
  rw [resolve_in_eq] at answered
  simp only [resolveChain, host_corridor_hit, confined_corridor_hit] at answered
  unfold answeringMember hostCorridors confinedCorridors
  cases host : scope.firstCorridor request
      (scope.core.corridors.drop scope.core.confined).reverse with
  | some found =>
    simp only [host, Except.ok.injEq, Resolution.hit.injEq] at answered
    simp [answered]
  | none =>
    simp only [host] at answered
    cases frames : scope.frameHit request seals (sealedBy request seals) scope.core.levels with
    | some found =>
      simp only [frames] at answered
      have same := admit_hit_same _ _ request seals answered
      cases same
      simp [answered]
    | none =>
      simp only [frames] at answered
      cases unsealed : sealedBy request seals with
      | none =>
        cases behind : scope.firstCorridor request
            (scope.core.corridors.take scope.core.confined).reverse with
        | some found =>
          simp only [unsealed, behind, Option.isNone_none, if_true, Except.ok.injEq,
            Resolution.hit.injEq] at answered
          simp [answered]
        | none =>
          simp only [unsealed, behind, Option.isNone_none, if_true] at answered
          split at answered
          · cases answered
          · have same := admit_hit_same _ _ request seals answered
            rw [← same] at answered
            simp [same.symm, answered]
      | some owner =>
        simp only [unsealed, Option.isNone_some, Bool.false_eq_true, if_false] at answered
        split at answered
        · cases answered
        · have same := admit_hit_same _ _ request seals answered
          rw [← same] at answered
          simp [same.symm, answered]

/-- A corridor answers when those ahead of it decline and its space hits. -/
theorem first_corridor_split (scope : Scope σ) (request : Request)
    (corridors : List (σ × CorridorIdentity)) (hit : Resolved σ) :
    scope.firstCorridor request corridors = some hit ↔
      ∃ ahead space identity rest found, corridors = ahead ++ (space, identity) :: rest ∧
        (∀ corridor ∈ ahead, Space.resolve corridor.1 request scope = .miss) ∧
        Space.resolve space request scope = .hit found ∧ hit = reportCorridor identity found := by
  induction corridors with
  | nil => simp [firstCorridor]
  | cons corridor rest ih =>
    obtain ⟨space, identity⟩ := corridor
    unfold firstCorridor
    cases answer : Space.resolve space request scope with
    | hit found =>
      constructor
      · intro first
        exact ⟨[], space, identity, rest, found, rfl, List.forall_mem_nil _, answer,
          (Option.some.inj first).symm⟩
      · rintro ⟨ahead, other, name, behind, found', parts, misses, answer', rfl⟩
        cases ahead with
        | nil =>
          cases parts
          rw [answer] at answer'
          cases answer'
          rfl
        | cons first _ =>
          cases parts
          have declined := misses (space, identity) (List.mem_cons_self ..)
          rw [answer] at declined
          cases declined
    | miss =>
      rw [ih]
      constructor
      · rintro ⟨ahead, other, name, behind, found, rfl, misses, hits⟩
        exact ⟨(space, identity) :: ahead, other, name, behind, found, rfl,
          List.forall_mem_cons.mpr ⟨answer, misses⟩, hits⟩
      · rintro ⟨ahead, other, name, behind, found, parts, misses, answer', reported⟩
        cases ahead with
        | nil =>
          cases parts
          rw [answer] at answer'
          cases answer'
        | cons first others =>
          cases parts
          exact ⟨others, other, name, behind, found, rfl,
            (List.forall_mem_cons.mp misses).2, answer', reported⟩

/-- For a name nobody seals, the level stack declines when every frame misses. -/
theorem frame_hit_none (scope : Scope σ) (request : Request) (seals : Seals)
    (path : LevelPath σ) : scope.frameHit request seals none path = none ↔
      ∀ level ∈ path, Space.resolve level.inner request scope = .miss := by
  induction path with
  | nil => simp [frameHit]
  | cons level outward ih =>
    simp only [frameHit, Option.any_none, Bool.false_eq_true, if_false, List.forall_mem_cons]
    cases answer : Space.resolve level.inner request scope with
    | hit found => simp
    | miss => simpa using ih

/-- A frame's hit was found in a level. -/
theorem frame_hit_place (scope : Scope σ) (request : Request) (seals : Seals)
    (isSealed : Option SealOwner) (path : LevelPath σ) (hit : Resolved σ)
    (found : scope.frameHit request seals isSealed path = some hit) : hit.levels ≠ [] := by
  induction path with
  | nil => cases found
  | cons level outward ih =>
    unfold frameHit at found
    split at found
    · exact ih found
    · split at found
      · cases found
        simp [reportFrame]
      · exact ih found

omit [Blake3] [Space σ] in
theorem report_corridor_keeps (identity : CorridorIdentity) (hit : Resolved σ) :
    (reportCorridor identity hit).endpoint = hit.endpoint ∧
      (reportCorridor identity hit).canonical = hit.canonical := by
  cases identity <;> exact ⟨rfl, rfl⟩

/-- A hit stands where an owner's names may be answered: a corridor the host injected
gave it; or the host owns them and the root gave it along a path crossing no level;
or a level owns them and is, as the registered object, the innermost level, and no
confined corridor gave it. -/
def AnsweredByOwner (seals : Seals) (member : Member) (owner : SealOwner) (hit : Resolved σ) :
    Prop :=
  member = .host ∨ (owner = .host ∧ member = .root ∧ hit.levels = []) ∨
    ∃ name, owner = .level name ∧ member ≠ .confined ∧
      ∃ level, hit.levels.head? = some level ∧ seals.isOwner name level = true

/-- Whatever a request is answered with on a real endpoint, under a name sealed by the
host or a level, stands where that owner's names may be answered. -/
def SealedNamesOwned (scope : Scope σ) (request : Request) (root : σ) (seals : Seals) : Prop :=
  ∀ hit, scope.resolveIn request root seals = .ok (.hit hit) → hit.endpoint.isLimiter = false →
    ∀ claim ∈ seals.claims, claim.2 ≠ .core →
      (∃ name ∈ request.target :: hit.canonical.toList, claim.1 <+: name) →
        AnsweredByOwner seals (scope.answeringMember request seals) claim.2 hit

/-- An unsealed name that the host's corridors and the level stack decline, and that
the first confined corridor to answer rewrites under a prefix sealed by the host or a
level. -/
def ConfinedRewrite (scope : Scope σ) (request : Request) (seals : Seals) : Prop :=
  sealedBy request seals = none ∧
    (∀ corridor ∈ scope.hostCorridors, Space.resolve corridor.1 request scope = .miss) ∧
    (∀ level ∈ scope.core.levels, Space.resolve level.inner request scope = .miss) ∧
    ∃ ahead space identity rest found,
      scope.confinedCorridors = ahead ++ (space, identity) :: rest ∧
      (∀ corridor ∈ ahead, Space.resolve corridor.1 request scope = .miss) ∧
      Space.resolve space request scope = .hit found ∧ found.endpoint.isLimiter = false ∧
      ∃ canonical, found.canonical = some canonical ∧
        ∃ claim ∈ seals.claims, claim.2 ≠ .core ∧ claim.1 <+: canonical

omit [Blake3] [Space σ] in
/-- An owner who accepts the place of a frame's or the root's hit owns it. -/
theorem owned_of_accepted (seals : Seals) (member : Member) (owner : SealOwner)
    (hit : Resolved σ) (accepted : seals.accepts owner hit.levels.head? = true)
    (framed : member = .frame ∧ hit.levels ≠ [] ∨ member = .root) :
    AnsweredByOwner seals member owner hit := by
  have unconfined : member ≠ .confined := by rcases framed with ⟨rfl, _⟩ | rfl <;> nofun
  cases owner with
  | core => cases accepted
  | host =>
    have outside : hit.levels = [] := by simpa [Seals.accepts] using accepted
    rcases framed with ⟨_, inside⟩ | rooted
    · exact absurd outside inside
    · exact Or.inr (Or.inl ⟨rfl, rooted, outside⟩)
  | level name =>
    refine Or.inr (Or.inr ⟨name, rfl, unconfined, ?_⟩)
    obtain ⟨level, first, owns⟩ := (Option.any_eq_true _ _).mp accepted
    exact ⟨level, first, owns⟩

omit [Blake3] [Space σ] in
/-- A name the walk does not hold sealed is under no host's or level's claim. -/
theorem unsealed_target (tree : Topology) (host : List Text) (seals : Seals)
    (accepted : seals.Accepted tree host) (request : Request)
    (unsealed : sealedBy request seals = none) (claim : Claim) (claimed : claim ∈ seals.claims)
    (foreign : claim.2 ≠ .core) : ¬ claim.1 <+: request.target := by
  intro under
  have owned := Seals.owner_of_claim tree host seals accepted request.target claim claimed under
  unfold sealedBy at unsealed
  split at unsealed
  · rename_i bare
    rw [accepted.trivial bare] at claimed
    obtain ⟨head, _, rfl⟩ := List.mem_map.mp claimed
    exact foreign rfl
  · rw [owned] at unsealed
    cases unsealed

/-- A confined rewrite is answered by its confined corridor. -/
theorem confined_rewrite_answers (scope : Scope σ) (request : Request) (root : σ)
    (seals : Seals) (rewrites : scope.ConfinedRewrite request seals) :
    scope.answeringMember request seals = .confined ∧
      ∃ hit, scope.resolveIn request root seals = .ok (.hit hit) ∧
        hit.endpoint.isLimiter = false ∧ ∃ canonical, hit.canonical = some canonical ∧
          ∃ claim ∈ seals.claims, claim.2 ≠ .core ∧ claim.1 <+: canonical := by
  obtain ⟨unsealed, host, frames, ahead, space, identity, rest, found, parts, misses, hits, real,
    canonical, reported, sealed_⟩ := rewrites
  have hostNone := (first_corridor_none scope request scope.hostCorridors).mpr host
  have framesNone := (frame_hit_none scope request seals scope.core.levels).mpr frames
  have behind := (first_corridor_split scope request scope.confinedCorridors
    (reportCorridor identity found)).mpr
      ⟨ahead, space, identity, rest, found, parts, misses, hits, rfl⟩
  obtain ⟨sameEndpoint, sameCanonical⟩ := report_corridor_keeps identity found
  refine ⟨?_, reportCorridor identity found, ?_, sameEndpoint ▸ real, canonical,
    sameCanonical.trans reported, sealed_⟩
  · simp [answeringMember, hostNone, unsealed, framesNone, behind]
  · unfold hostCorridors at hostNone
    unfold confinedCorridors at behind
    rw [resolve_in_eq]
    simp [resolveChain, host_corridor_hit, confined_corridor_hit, hostNone, unsealed, framesNone,
      behind]

/-- A confined rewrite answers a sealed name for an owner it is not. -/
theorem confined_rewrite_unowned (scope : Scope σ) (request : Request) (root : σ)
    (seals : Seals) (rewrites : scope.ConfinedRewrite request seals) :
    ¬ scope.SealedNamesOwned request root seals := by
  intro owned
  obtain ⟨member, hit, answered, real, canonical, reported, claim, claimed, foreign, under⟩ :=
    confined_rewrite_answers scope request root seals rewrites
  have placed := owned hit answered real claim claimed foreign
    ⟨canonical, by simp [reported], under⟩
  rw [member] at placed
  rcases placed with host | ⟨_, rooted, _⟩ | ⟨_, _, unconfined, _⟩
  · cases host
  · cases rooted
  · exact unconfined rfl

/-- Sealed names are answered only by their owners, exactly where no confined corridor
rewrites an unsealed name into a sealed one. Each member of the walk is one case: a
host's corridor is always allowed, a frame's and the root's hits were checked, and a
confined corridor is asked only for unsealed names and never checked. -/
theorem sealed_names_owned_iff (scope : Scope σ) (request : Request) (root : σ)
    (host : List Text) (seals : Seals)
    (built : Seals.fromTopology (Space.topology root) host = .ok seals) :
    scope.SealedNamesOwned request root seals ↔ ¬ scope.ConfinedRewrite request seals := by
  have accepted := Seals.from_topology_accepted (Space.topology root) host seals built
  constructor
  · exact fun owned rewrites => confined_rewrite_unowned scope request root seals rewrites owned
  · intro unrewritten hit answered real claim claimed foreign named
    obtain ⟨name, inside, under⟩ := named
    have walked := answering_member_hit scope request root seals hit answered
    cases member : scope.answeringMember request seals with
    | host => exact Or.inl rfl
    | frame =>
      rw [member] at walked
      obtain ⟨_, found, passed⟩ := walked
      have placed := admit_hit_accepts (Space.topology root) host seals accepted request hit passed
        real claim claimed foreign name inside under
      exact owned_of_accepted seals .frame claim.2 hit placed
        (Or.inl ⟨rfl, frame_hit_place scope request seals _ _ hit found⟩)
    | root =>
      rw [member] at walked
      have placed := admit_hit_accepts (Space.topology root) host seals accepted request hit walked.2
        real claim claimed foreign name inside under
      exact owned_of_accepted seals .root claim.2 hit placed (Or.inr rfl)
    | confined =>
      rw [member] at walked
      obtain ⟨unsealed, hostNone, framesNone, behind⟩ := walked
      obtain ⟨ahead, space, identity, rest, found, parts, misses, hits, rfl⟩ :=
        (first_corridor_split scope request _ hit).mp behind
      obtain ⟨sameEndpoint, sameCanonical⟩ := report_corridor_keeps identity found
      have outside := unsealed_target (Space.topology root) host seals accepted request unsealed
        claim claimed foreign
      rw [sameCanonical] at inside
      rcases List.mem_cons.mp inside with rfl | rewritten
      · exact absurd under outside
      · rw [unsealed] at framesNone
        exact absurd ⟨unsealed, (first_corridor_none scope request _).mp hostNone,
          (frame_hit_none scope request seals _).mp framesNone, ahead, space, identity, rest, found,
          parts, misses, hits, sameEndpoint ▸ real, name, Option.mem_toList.mp rewritten, claim,
          claimed, foreign, under⟩ unrewritten

end Scope

end Walking

/-!
The host sealed `urn:sign:`. An endpoint confines itself to an alias overlay of its own
that rewrites an unsealed name to a signing name and answers it, reporting the rewrite.
-/

namespace RewriteExample

local instance anyDigest : Blake3 := ⟨fun bytes => bytes.length.toUInt64⟩

local instance anyIri : IriSyntax := ⟨fun _ => true, fun _ => []⟩

def signing : Iri := "urn:sign:x".toList

def asked : Iri := "urn:own:x".toList

/-- The root holds the host's own signing door. -/
def root : Arrangement Empty := .endpointSpace [(.exact signing, .bound 1 false)] none

/-- The endpoint's overlay answers the signing name itself. -/
def overlay : Arrangement Empty :=
  .«alias» (.ofRules [.plain .exact asked signing .child])
    (.endpointSpace [(.exact signing, .bound 2 false)] none) none

def scope : Scope (Arrangement Empty) := Scope.empty.confine "urn:ctx:own".toList overlay

def sealing : Seals := ⟨Seals.coreClaims ++ [("urn:sign:".toList, .host)], [], false⟩

def request : Request := Request.new .source asked

theorem sealing_built :
    Seals.fromTopology (Space.topology root) ["urn:sign:".toList] = .ok sealing := rfl

theorem rewrites : scope.ConfinedRewrite request sealing := by
  refine ⟨rfl, nofun, nofun, [], overlay, .named "urn:ctx:own".toList, [],
    ⟨.bound 2 false, [], some signing, none, []⟩, rfl, nofun, rfl, rfl, signing, rfl,
    ("urn:sign:".toList, .host), ?_, nofun, by decide⟩
  simp [sealing]

/-- A confined corridor answers under a canonical the host sealed. -/
theorem confined_corridor_reports_sealed :
    Seals.fromTopology (Space.topology root) ["urn:sign:".toList] = .ok sealing ∧
      ¬ scope.SealedNamesOwned request root sealing :=
  ⟨sealing_built, Scope.confined_rewrite_unowned scope request root sealing rewrites⟩

/-- The condition at hand, on the chain that meets it. -/
theorem rewriting_chain_unowned :
    scope.SealedNamesOwned request root sealing ↔ ¬ scope.ConfinedRewrite request sealing :=
  Scope.sealed_names_owned_iff scope request root ["urn:sign:".toList] sealing sealing_built

end RewriteExample

end Ikigai
