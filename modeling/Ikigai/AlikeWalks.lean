import Ikigai.Resolution

/-!
# Alike chains walk alike

Two chains whose corridors pairwise share identities and hold the same doors, and
whose level frames pairwise share names and hold the same doors, differ in two
things a walk reads: where their confined splits are, and which level objects their
frames are, for the seal table knows a level by its serial. With one split, a request
that no corridor of the host answers is answered alike exactly where the frames that
decide it are equally deep and what they answer is refused alike. When the splits
differ, both chains are severed and neither has a level stack, a sealed name is asked
of different corridors: those between the two splits decide.
-/

namespace Ikigai

universe u
variable {σ : Type u} [Blake3] [Space σ]

/-- Two spaces hold the same doors: they answer every request alike, whatever chain
each is asked in. -/
def SameDoors (left right : σ) : Prop :=
  ∀ (request : Request) (asked asked' : Scope σ),
    Space.resolve left request asked = Space.resolve right request asked'

/-- Corridors that share an identity and hold the same doors. -/
def CorridorsAlike (left right : σ × CorridorIdentity) : Prop :=
  left.2 = right.2 ∧ SameDoors left.1 right.1

/-- Levels of one name that hold the same doors. They may be different objects, of which the
seal table knows one and not the other. -/
def FramesAlike (left right : LevelCore σ) : Prop :=
  left.name = right.name ∧ SameDoors left.inner right.inner

/-- What a resolution tells the requester: levels are reported by name. -/
structure Shown where
  endpoint : Endpoint
  bindings : List (Text × Text)
  canonical : Option Iri
  answeredBy : Option Iri
  levels : List Iri
deriving DecidableEq, Repr

/-- A hit as the requester sees it. -/
def Resolved.shown (hit : Resolved σ) : Shown :=
  ⟨hit.endpoint, hit.bindings, hit.canonical, hit.answeredBy, hit.levels.map LevelCore.name⟩

def Resolution.shown : Resolution σ → Option Shown
  | .hit found => some found.shown
  | .miss => none

/-- The outcome of a walk: a breach, a miss, or a hit as it is shown. -/
def outcome (result : Except SealBreach (Resolution σ)) : Except SealBreach (Option Shown) :=
  result.map Resolution.shown

/-- What the seal table says of a hit found on a path: nothing where it is a hole. -/
def Resolved.verdict (hit : Resolved σ) (request : Request) (seals : Seals) :
    Except SealBreach Unit :=
  if hit.endpoint.isLimiter then .ok ()
  else seals.admitNames (request.target :: hit.canonical.toList) hit.levels

omit [Blake3] [Space σ] in
/-- A hit that is looked at comes out as its verdict says. -/
theorem outcome_admitted (hit : Resolved σ) (request : Request) (seals : Seals)
    (looked : (hit.canonical.isSome || !(seals.trivial && hit.levels.isEmpty)) = true) :
    outcome (admitHit (.hit hit) request seals) =
      (hit.verdict request seals).map fun _ => some hit.shown := by
  unfold admitHit Resolved.verdict
  cases limiter : hit.endpoint.isLimiter with
  | true =>
    simp only [limiter, Bool.not_true, Bool.false_and, Bool.false_eq_true, if_false, if_true]
    rfl
  | false =>
    simp only [limiter, looked, Bool.not_false, Bool.and_true, if_true, Bool.false_eq_true, if_false]
    cases seals.admitNames (request.target :: hit.canonical.toList) hit.levels <;> rfl

omit [Blake3] [Space σ] in
/-- Hits come out alike exactly where one thing is said of both, and they are shown alike unless
both are refused. -/
theorem admitted_alike_iff (hit other : Resolved σ) (request : Request) (seals : Seals)
    (looked : (hit.canonical.isSome || !(seals.trivial && hit.levels.isEmpty)) = true)
    (looked' : (other.canonical.isSome || !(seals.trivial && other.levels.isEmpty)) = true) :
    outcome (admitHit (.hit hit) request seals) = outcome (admitHit (.hit other) request seals) ↔
      hit.verdict request seals = other.verdict request seals ∧
        (hit.verdict request seals = .ok () → hit.shown = other.shown) := by
  rw [outcome_admitted hit request seals looked, outcome_admitted other request seals looked']
  cases hit.verdict request seals with
  | error breach => cases other.verdict request seals <;> simp [Except.map]
  | ok admitted => cases other.verdict request seals <;> simp [Except.map]

namespace Scope

theorem first_corridor_alike (left right : Scope σ) (request : Request)
    (corridors corridors' : List (σ × CorridorIdentity))
    (alike : List.Forall₂ CorridorsAlike corridors corridors') :
    left.firstCorridor request corridors = right.firstCorridor request corridors' := by
  induction alike with
  | nil => rfl
  | @cons corridor corridor' rest rest' same _ ih =>
    obtain ⟨sameIdentity, doors⟩ := same
    simp only [firstCorridor, sameIdentity, doors request left right, ih]

/-- Whether a frame is passed by: it may not be asked for a sealed name, or it does not answer. -/
def passedBy (scope : Scope σ) (request : Request) (seals : Seals) (level : LevelCore σ) : Bool :=
  (sealedBy request seals).any (fun owner => !seals.frameAdmits owner level) ||
    match Space.resolve level.inner request scope with
    | .hit _ => false
    | .miss => true

/-- The part of the level stack from the frame that decides: the first that may be asked and
answers. -/
def deciding (scope : Scope σ) (request : Request) (seals : Seals) : LevelPath σ :=
  scope.core.levels.dropWhile (scope.passedBy request seals)

/-- What the first frame of a path answers, as the walk reports it. -/
def answerAt (scope : Scope σ) (request : Request) : LevelPath σ → Option (Resolved σ)
  | [] => none
  | level :: outward =>
    match Space.resolve level.inner request scope with
    | .hit hit => some (reportFrame level outward hit)
    | .miss => none

/-- The stack answers with the frame that decides. -/
theorem frame_hit_deciding (scope : Scope σ) (request : Request) (seals : Seals)
    (path : LevelPath σ) :
    scope.frameHit request seals (sealedBy request seals) path =
      scope.answerAt request (path.dropWhile (scope.passedBy request seals)) := by
  induction path with
  | nil => rfl
  | cons level outward ih =>
    cases skipped : (sealedBy request seals).any fun owner => !seals.frameAdmits owner level with
    | true =>
      have passed : scope.passedBy request seals level = true := by simp [passedBy, skipped]
      rw [List.dropWhile_cons_of_pos passed, ← ih, frameHit, if_pos skipped]
    | false =>
      cases answer : Space.resolve level.inner request scope with
      | hit hit =>
        have here : scope.passedBy request seals level = false := by
          simp [passedBy, skipped, answer]
        rw [List.dropWhile_cons_of_neg (by simp [here]), frameHit, if_neg (by simp [skipped])]
        simp only [answer, answerAt]
      | miss =>
        have passed : scope.passedBy request seals level = true := by
          simp [passedBy, skipped, answer]
        rw [List.dropWhile_cons_of_pos passed, ← ih, frameHit, if_neg (by simp [skipped])]
        simp only [answer]

/-- The frame that decides may be asked, and answers. -/
theorem deciding_head (scope : Scope σ) (request : Request) (seals : Seals) {level : LevelCore σ}
    {outward : LevelPath σ} (decides : scope.deciding request seals = level :: outward) :
    (∀ owner, sealedBy request seals = some owner → seals.frameAdmits owner level = true) ∧
      ∃ hit, Space.resolve level.inner request scope = .hit hit := by
  have asked : scope.passedBy request seals level = false := by
    have first := List.head?_dropWhile_not (scope.passedBy request seals) scope.core.levels
    unfold deciding at decides
    rw [decides] at first
    simpa using first
  rw [passedBy, Bool.or_eq_false_iff] at asked
  constructor
  · intro owner isSealed
    simpa [isSealed] using asked.1
  · cases answer : Space.resolve level.inner request scope with
    | hit hit => exact ⟨hit, rfl⟩
    | miss => simp [answer] at asked

/-- Two chains pairwise alike in their corridors and their level frames. -/
structure ChainsAlike (left right : Chain σ) : Prop where
  severed : left.severed = right.severed
  corridors : List.Forall₂ CorridorsAlike left.corridors right.corridors
  frames : List.Forall₂ FramesAlike left.levels right.levels

/-- Alike stacks have the same names. -/
theorem frame_names_alike {path path' : LevelPath σ} (alike : List.Forall₂ FramesAlike path path') :
    path.map LevelCore.name = path'.map LevelCore.name := by
  induction alike with
  | nil => rfl
  | cons same _ ih => rw [List.map_cons, List.map_cons, same.1, ih]

/-- Some of the corridors would answer the request. -/
def Answers (scope : Scope σ) (request : Request) (corridors : List (σ × CorridorIdentity)) :
    Prop :=
  ∃ corridor ∈ corridors, Space.resolve corridor.1 request scope ≠ .miss

theorem first_corridor_some (scope : Scope σ) (request : Request)
    (corridors : List (σ × CorridorIdentity)) (answers : scope.Answers request corridors) :
    ∃ hit, scope.firstCorridor request corridors.reverse = some hit := by
  cases found : scope.firstCorridor request corridors.reverse with
  | some hit => exact ⟨hit, rfl⟩
  | none =>
    obtain ⟨corridor, inside, hits⟩ := answers
    have misses := (first_corridor_none scope request corridors.reverse).mp found corridor
      (List.mem_reverse.mpr inside)
    exact absurd misses hits

theorem first_corridor_silent (scope : Scope σ) (request : Request)
    (corridors : List (σ × CorridorIdentity)) (silent : ¬ scope.Answers request corridors) :
    scope.firstCorridor request corridors.reverse = none := by
  rw [first_corridor_none]
  intro corridor inside
  by_contra hits
  exact silent ⟨corridor, List.mem_reverse.mp inside, hits⟩

/-- What is left of a walk once no frame has answered. -/
def beyondFrames (scope : Scope σ) (chain : Chain σ) (request : Request) (root : σ)
    (seals : Seals) : Except SealBreach (Resolution σ) :=
  match if (sealedBy request seals).isNone then
      scope.firstCorridor request (chain.corridors.take chain.confined).reverse
    else none with
  | some hit => .ok (.hit hit)
  | none =>
    if chain.severed then .ok .miss else admitHit (Space.resolve root request scope) request seals

/-- The walk from the level stack on. -/
def fromStack (scope : Scope σ) (request : Request) (root : σ) (seals : Seals) :
    Except SealBreach (Resolution σ) :=
  (scope.answerAt request (scope.deciding request seals)).elim
    (scope.beyondFrames scope.core request root seals)
    fun hit => admitHit (.hit hit) request seals

/-- Where no corridor of the host answers, the stack does, or what is beyond it. -/
theorem resolve_from_stack (scope : Scope σ) (request : Request) (root : σ) (seals : Seals)
    (silent : ¬scope.Answers request (scope.core.corridors.drop scope.core.confined)) :
    scope.resolveChain scope.core request root seals = scope.fromStack request root seals := by
  simp only [resolveChain, host_corridor_hit, confined_corridor_hit, frame_hit_deciding,
    first_corridor_silent scope request _ silent]
  unfold fromStack deciding
  cases scope.answerAt request
    (scope.core.levels.dropWhile (scope.passedBy request seals)) <;> rfl

/-- Beyond the stacks alike chains walk alike. -/
theorem beyond_alike (left right : Scope σ) (chain chain' : Chain σ) (request : Request)
    (root : σ) (seals : Seals) (alike : ChainsAlike chain chain')
    (split : chain.confined = chain'.confined) (rooted : SameDoors root root) :
    left.beyondFrames chain request root seals = right.beyondFrames chain' request root seals := by
  have behind : left.firstCorridor request (chain.corridors.take chain.confined).reverse =
      right.firstCorridor request (chain'.corridors.take chain'.confined).reverse := by
    rw [split]
    exact first_corridor_alike left right request _ _
      (List.forall₂_reverse_iff.mpr (List.forall₂_take _ alike.corridors))
  simp only [beyondFrames, behind, alike.severed, rooted request left right]

/-- A name that is not sealed is decided equally deep in alike stacks. -/
theorem deciding_unsealed (left right : Scope σ) (request : Request) (seals : Seals)
    (unsealed : sealedBy request seals = none)
    (alike : List.Forall₂ FramesAlike left.core.levels right.core.levels) :
    (left.deciding request seals).length = (right.deciding request seals).length := by
  have lengths : ∀ path path' : LevelPath σ, List.Forall₂ FramesAlike path path' →
      (path.dropWhile (left.passedBy request seals)).length =
        (path'.dropWhile (right.passedBy request seals)).length := by
    intro path path' alike
    induction alike with
    | nil => rfl
    | @cons level level' outward outward' same further ih =>
      have passed : left.passedBy request seals level = right.passedBy request seals level' := by
        simp only [passedBy, unsealed, Option.any_none, same.2 request left right]
      rw [List.dropWhile_cons, List.dropWhile_cons, passed]
      split
      · exact ih
      · exact congrArg (· + 1) further.length_eq
  exact lengths _ _ alike

/-- The frames that decide in alike stacks have one name. -/
theorem deciding_names (left right : Scope σ) (request : Request) (seals : Seals)
    (alike : List.Forall₂ FramesAlike left.core.levels right.core.levels)
    {level level' : LevelCore σ} {outward outward' : LevelPath σ}
    (decides : left.deciding request seals = level :: outward)
    (decides' : right.deciding request seals = level' :: outward') :
    level.name = level'.name ∧ (outward.length = outward'.length →
      outward.map LevelCore.name = outward'.map LevelCore.name) := by
  have within : ∀ scope : Scope σ, (scope.deciding request seals).map LevelCore.name <:+
      scope.core.levels.map LevelCore.name :=
    fun scope => (List.dropWhile_suffix _).map _
  have first := within left
  have second := within right
  rw [decides] at first
  rw [decides', ← frame_names_alike alike] at second
  have deep : outward.length = outward'.length →
      (level :: outward).map LevelCore.name = (level' :: outward').map LevelCore.name := by
    intro same
    refine (List.suffix_of_suffix_length_le first second ?_).eq_of_length ?_ <;> simp [same]
  refine ⟨?_, fun same => (List.cons.inj (deep same)).2⟩
  cases isSealed : sealedBy request seals with
  | none =>
    have lengths := deciding_unsealed left right request seals isSealed alike
    rw [decides, decides', List.length_cons, List.length_cons] at lengths
    exact (List.cons.inj (deep (by omega))).1
  | some owner =>
    have admits := (deciding_head left request seals decides).1 owner isSealed
    have admits' := (deciding_head right request seals decides').1 owner isSealed
    cases owner with
    | core => cases admits
    | host => cases admits
    | level name =>
      simp only [Seals.frameAdmits, Seals.isOwner, Bool.and_eq_true, beq_iff_eq] at admits admits'
      rw [admits.1, admits'.1]

/-- Alike level stacks make no difference to a request. -/
inductive StacksHarmless (left right : Scope σ) (request : Request) (root : σ) (seals : Seals) :
    Prop where
  /-- No frame decides in either. -/
  | neither (none : left.deciding request seals = []) (none' : right.deciding request seals = [])
  /-- A frame decides in both; of what it answers the seal table says one thing on the two paths,
  and lets it pass only where the frames are equally deep. -/
  | both (level level' : LevelCore σ) (outward outward' : LevelPath σ) (hit : Resolved σ)
      (decides : left.deciding request seals = level :: outward)
      (decides' : right.deciding request seals = level' :: outward')
      (answers : Space.resolve level.inner request left = .hit hit)
      (verdicts : (reportFrame level outward hit).verdict request seals =
        (reportFrame level' outward' hit).verdict request seals)
      (deep : (reportFrame level outward hit).verdict request seals = .ok () →
        outward.length = outward'.length)
  /-- A frame decides in the first alone, and the root answers the second as the frame does. -/
  | first (level : LevelCore σ) (outward : LevelPath σ) (hit found : Resolved σ)
      (decides : left.deciding request seals = level :: outward)
      (none' : right.deciding request seals = [])
      (answers : Space.resolve level.inner request left = .hit hit)
      (unsevered : right.core.severed = false)
      (rooted : Space.resolve root request right = .hit found)
      (verdicts : (reportFrame level outward hit).verdict request seals =
        found.verdict request seals)
      (shown : (reportFrame level outward hit).verdict request seals = .ok () →
        (reportFrame level outward hit).shown = found.shown)
  /-- A frame decides in the second alone, and the root answers the first as the frame does. -/
  | second (level : LevelCore σ) (outward : LevelPath σ) (hit found : Resolved σ)
      (none : left.deciding request seals = [])
      (decides : right.deciding request seals = level :: outward)
      (answers : Space.resolve level.inner request right = .hit hit)
      (unsevered : left.core.severed = false)
      (rooted : Space.resolve root request left = .hit found)
      (verdicts : found.verdict request seals =
        (reportFrame level outward hit).verdict request seals)
      (shown : found.verdict request seals = .ok () →
        found.shown = (reportFrame level outward hit).shown)

omit [Blake3] [Space σ] in
/-- A frame's hit is looked at. -/
theorem frame_looked (seals : Seals) (level : LevelCore σ) (outward : LevelPath σ)
    (hit : Resolved σ) :
    ((reportFrame level outward hit).canonical.isSome ||
      !(seals.trivial && (reportFrame level outward hit).levels.isEmpty)) = true := by
  simp [reportFrame]

/-- A frame that answers a sealed name alone is matched by the root, or not at all. -/
theorem beyond_matches_iff (scope : Scope σ) (request : Request) (root : σ) (seals : Seals)
    (hit : Resolved σ) (isSealed : (sealedBy request seals).isSome = true)
    (looked : (hit.canonical.isSome || !(seals.trivial && hit.levels.isEmpty)) = true) :
    outcome (admitHit (.hit hit) request seals) =
        outcome (scope.beyondFrames scope.core request root seals) ↔
      scope.core.severed = false ∧ ∃ found, Space.resolve root request scope = .hit found ∧
        hit.verdict request seals = found.verdict request seals ∧
          (hit.verdict request seals = .ok () → hit.shown = found.shown) := by
  have nontrivial : seals.trivial = false := by
    unfold sealedBy at isSealed
    split at isSealed
    · cases isSealed
    · simpa using ‹¬seals.trivial = true›
  have unsealed : (sealedBy request seals).isNone = false := by
    rw [Option.isNone_eq_false_iff]
    exact isSealed
  have never : outcome (admitHit (.hit hit) request seals) ≠ outcome (.ok (.miss : Resolution σ)) := by
    rw [outcome_admitted hit request seals looked]
    cases hit.verdict request seals with
    | error breach => rintro ⟨⟩
    | ok admitted => rintro ⟨⟩
  unfold beyondFrames
  simp only [unsealed, Bool.false_eq_true, if_false]
  cases scope.core.severed with
  | true => simp only [if_true, never, Bool.true_eq_false, false_and]
  | false =>
    simp only [Bool.false_eq_true, if_false, true_and]
    cases answer : Space.resolve root request scope with
    | miss =>
      refine iff_of_false never ?_
      rintro ⟨found, same, _⟩
      cases same
    | hit found =>
      rw [admitted_alike_iff hit found request seals looked (by simp [nontrivial])]
      constructor
      · exact fun same => ⟨found, rfl, same⟩
      · rintro ⟨other, same, alike⟩
        cases same
        exact alike

/-- A name that a frame of one of two alike stacks decides, and none of the other, is sealed. -/
theorem sealed_of_alone (left right : Scope σ) (request : Request) (seals : Seals)
    (alike : List.Forall₂ FramesAlike left.core.levels right.core.levels)
    (apart : (left.deciding request seals).length ≠ (right.deciding request seals).length) :
    (sealedBy request seals).isSome = true := by
  by_contra unsealed
  exact apart (deciding_unsealed left right request seals (by simpa using unsealed) alike)

/-- A frame of the first stack alone decides. -/
theorem first_alone_iff (left right : Scope σ) (request : Request) (root : σ) (seals : Seals)
    (alike : List.Forall₂ FramesAlike left.core.levels right.core.levels) {level : LevelCore σ}
    {outward : LevelPath σ} (decides : left.deciding request seals = level :: outward)
    (decides' : right.deciding request seals = []) :
    outcome (left.fromStack request root seals) = outcome (right.fromStack request root seals) ↔
      StacksHarmless left right request root seals := by
  obtain ⟨_, hit, answers⟩ := deciding_head left request seals decides
  have isSealed := sealed_of_alone left right request seals alike (by simp [decides, decides'])
  have matched := beyond_matches_iff right request root seals _ isSealed
    (frame_looked seals level outward hit)
  simp only [fromStack, decides, decides', answerAt, answers, Option.elim_none, Option.elim_some]
  rw [matched]
  constructor
  · rintro ⟨unsevered, found, root, verdicts, shown⟩
    exact .first level outward hit found decides decides' answers unsevered root verdicts shown
  · intro harmless
    cases harmless with
    | neither none _ => rw [decides] at none; cases none
    | both _ _ _ _ _ _ same => rw [decides'] at same; cases same
    | first level outward other found same _ answers' unsevered root verdicts shown =>
      rw [decides] at same
      cases same
      rw [answers] at answers'
      cases answers'
      exact ⟨unsevered, found, root, verdicts, shown⟩
    | second _ _ _ _ none => rw [decides] at none; cases none

/-- A frame of the second stack alone decides. -/
theorem second_alone_iff (left right : Scope σ) (request : Request) (root : σ) (seals : Seals)
    (alike : List.Forall₂ FramesAlike left.core.levels right.core.levels) {level : LevelCore σ}
    {outward : LevelPath σ} (decides : left.deciding request seals = [])
    (decides' : right.deciding request seals = level :: outward) :
    outcome (left.fromStack request root seals) = outcome (right.fromStack request root seals) ↔
      StacksHarmless left right request root seals := by
  obtain ⟨_, hit, answers⟩ := deciding_head right request seals decides'
  have isSealed := sealed_of_alone left right request seals alike (by simp [decides, decides'])
  have matched := beyond_matches_iff left request root seals _ isSealed
    (frame_looked seals level outward hit)
  simp only [fromStack, decides, decides', answerAt, answers, Option.elim_none, Option.elim_some]
  rw [eq_comm, matched]
  constructor
  · rintro ⟨unsevered, found, root, verdicts, shown⟩
    exact .second level outward hit found decides decides' answers unsevered root
      verdicts.symm fun admitted => (shown (verdicts.trans admitted)).symm
  · intro harmless
    cases harmless with
    | neither _ none' => rw [decides'] at none'; cases none'
    | both _ _ _ _ _ same => rw [decides] at same; cases same
    | first _ _ _ _ same => rw [decides] at same; cases same
    | second level outward other found _ same answers' unsevered root verdicts shown =>
      rw [decides'] at same
      cases same
      rw [answers] at answers'
      cases answers'
      exact ⟨unsevered, found, root, verdicts.symm, fun admitted =>
        (shown (verdicts.trans admitted)).symm⟩

/-- Frames decide in both stacks: they have one name, and so answer alike. -/
theorem both_decide_iff (left right : Scope σ) (request : Request) (root : σ) (seals : Seals)
    (alike : List.Forall₂ FramesAlike left.core.levels right.core.levels)
    (named : ∀ level ∈ left.core.levels, ∀ level' ∈ right.core.levels, level.name = level'.name →
      SameDoors level.inner level'.inner) {level level' : LevelCore σ}
    {outward outward' : LevelPath σ} (decides : left.deciding request seals = level :: outward)
    (decides' : right.deciding request seals = level' :: outward') :
    outcome (left.fromStack request root seals) = outcome (right.fromStack request root seals) ↔
      StacksHarmless left right request root seals := by
  obtain ⟨_, hit, answers⟩ := deciding_head left request seals decides
  obtain ⟨names, deeper⟩ := deciding_names left right request seals alike decides decides'
  have inside : level ∈ left.core.levels :=
    (List.dropWhile_suffix _).subset (by unfold deciding at decides; rw [decides]; simp)
  have inside' : level' ∈ right.core.levels :=
    (List.dropWhile_suffix _).subset (by unfold deciding at decides'; rw [decides']; simp)
  have answers' : Space.resolve level'.inner request right = .hit hit :=
    ((named level inside level' inside' names) request left right).symm.trans answers
  have shown : (reportFrame level outward hit).shown = (reportFrame level' outward' hit).shown ↔
      outward.length = outward'.length := by
    constructor
    · intro same
      have lengths := congrArg (fun shown : Shown => shown.levels.length) same
      simpa [Resolved.shown, reportFrame] using lengths
    · intro same
      simp [Resolved.shown, reportFrame, names, deeper same]
  simp only [fromStack, decides, decides', answerAt, answers, answers', Option.elim_some]
  rw [admitted_alike_iff _ _ request seals (frame_looked seals level outward hit)
    (frame_looked seals level' outward' hit), shown]
  constructor
  · rintro ⟨verdicts, deep⟩
    exact .both level level' outward outward' hit decides decides' answers verdicts deep
  · intro harmless
    cases harmless with
    | neither none _ => rw [decides] at none; cases none
    | both level level' outward outward' other same same' answers' verdicts deep =>
      rw [decides] at same
      rw [decides'] at same'
      cases same
      cases same'
      rw [answers] at answers'
      cases answers'
      exact ⟨verdicts, deep⟩
    | first _ _ _ _ _ none' => rw [decides'] at none'; cases none'
    | second _ _ _ _ none => rw [decides] at none; cases none

/-- Alike chains with one confined split answer alike exactly where a corridor of the host answers
or the level stacks make no difference. -/
theorem resolve_one_split (left right : Scope σ) (request : Request) (root : σ) (seals : Seals)
    (alike : ChainsAlike left.core right.core) (split : left.core.confined = right.core.confined)
    (named : ∀ level ∈ left.core.levels, ∀ level' ∈ right.core.levels, level.name = level'.name →
      SameDoors level.inner level'.inner) (rooted : SameDoors root root) :
    outcome (left.resolveChain left.core request root seals) =
        outcome (right.resolveChain right.core request root seals) ↔
      left.Answers request (left.core.corridors.drop left.core.confined) ∨
        StacksHarmless left right request root seals := by
  have host : left.firstCorridor request (left.core.corridors.drop left.core.confined).reverse =
      right.firstCorridor request (right.core.corridors.drop right.core.confined).reverse := by
    rw [split]
    exact first_corridor_alike left right request _ _
      (List.forall₂_reverse_iff.mpr (List.forall₂_drop _ alike.corridors))
  by_cases common : left.Answers request (left.core.corridors.drop left.core.confined)
  · obtain ⟨hit, found⟩ := first_corridor_some left request _ common
    refine iff_of_true ?_ (.inl common)
    simp only [resolveChain, host_corridor_hit, ← host, found]
  · have common' : ¬right.Answers request (right.core.corridors.drop right.core.confined) := by
      intro answers
      obtain ⟨hit, found⟩ := first_corridor_some right request _ answers
      rw [← host, first_corridor_silent left request _ common] at found
      cases found
    rw [resolve_from_stack left request root seals common,
      resolve_from_stack right request root seals common']
    simp only [common, false_or]
    cases decides : left.deciding request seals with
    | nil =>
      cases decides' : right.deciding request seals with
      | nil =>
        refine iff_of_true ?_ (.neither decides decides')
        simp only [fromStack, decides, decides', answerAt, Option.elim_none,
          beyond_alike left right left.core right.core request root seals alike split rooted]
      | cons level' outward' =>
        exact second_alone_iff left right request root seals alike.frames decides decides'
    | cons level outward =>
      cases decides' : right.deciding request seals with
      | nil => exact first_alone_iff left right request root seals alike.frames decides decides'
      | cons level' outward' =>
        exact both_decide_iff left right request root seals alike.frames named decides decides'

/-- A severed chain with no level stack asks its corridors and nobody else. -/
theorem resolve_severed (scope : Scope σ) (chain : Chain σ) (request : Request) (root : σ)
    (seals : Seals) (severed : chain.severed = true) (flat : chain.levels = []) :
    scope.resolveChain chain request root seals =
      match scope.firstCorridor request
          ((chain.corridors.drop chain.confined).reverse ++
            if (sealedBy request seals).isNone then
              (chain.corridors.take chain.confined).reverse else []) with
      | some hit => .ok (.hit hit)
      | none => .ok .miss := by
  simp only [resolveChain, host_corridor_hit, confined_corridor_hit, severed, flat, frameHit,
    first_corridor_append]
  cases scope.firstCorridor request (chain.corridors.drop chain.confined).reverse with
  | some hit => rfl
  | none =>
    simp only [Option.none_or, if_true]
    cases sealedBy request seals with
    | none => rfl
    | some owner => rfl

/-- Where the confined splits differ, an unsealed name is still asked of every
corridor in the same order, and a sealed name only of those before the split: the
outcomes agree when a corridor common to both walks answers, or when none of those
between the splits would. -/
theorem resolve_split (left right : Scope σ) (chain chain' : Chain σ) (request : Request)
    (root : σ) (seals : Seals) (corridors : List.Forall₂ CorridorsAlike chain.corridors
      chain'.corridors)
    (severed : chain.severed = true) (severed' : chain'.severed = true)
    (flat : chain.levels = []) (flat' : chain'.levels = [])
    (split : chain.confined < chain'.confined) :
    outcome (left.resolveChain chain request root seals) =
        outcome (right.resolveChain chain' request root seals) ↔
      (sealedBy request seals = none ∨
        left.Answers request (chain.corridors.drop chain'.confined) ∨
        ¬ left.Answers request ((chain.corridors.take chain'.confined).drop chain.confined)) := by
  rw [resolve_severed left chain request root seals severed flat,
    resolve_severed right chain' request root seals severed' flat']
  have deep : right.firstCorridor request (chain'.corridors.drop chain'.confined).reverse =
      left.firstCorridor request (chain.corridors.drop chain'.confined).reverse :=
    (first_corridor_alike left right request _ _
      (List.forall₂_reverse_iff.mpr (List.forall₂_drop _ corridors))).symm
  have shallow : (chain.corridors.drop chain.confined).reverse =
      (chain.corridors.drop chain'.confined).reverse ++
        ((chain.corridors.take chain'.confined).drop chain.confined).reverse := by
    rw [← List.reverse_append]
    congr 1
    have parts := List.take_append_drop (chain'.confined - chain.confined)
      (chain.corridors.drop chain.confined)
    rw [List.drop_drop, List.take_drop] at parts
    rw [← parts, show chain.confined + (chain'.confined - chain.confined) = chain'.confined by omega]
  cases unsealed : sealedBy request seals with
  | none =>
    have whole (asked : Chain σ) :
        (asked.corridors.drop asked.confined).reverse ++
          (asked.corridors.take asked.confined).reverse = asked.corridors.reverse := by
      rw [← List.reverse_append, List.take_append_drop]
    have same := first_corridor_alike left right request _ _
      (List.forall₂_reverse_iff.mpr corridors)
    simp only [Option.isNone_none, if_true, whole, same, true_or]
  | some owner =>
    simp only [Option.isNone_some, Bool.false_eq_true, if_false, List.append_nil, deep, shallow,
      first_corridor_append, reduceCtorEq, false_or]
    by_cases common : left.Answers request (chain.corridors.drop chain'.confined)
    · obtain ⟨hit, found⟩ := first_corridor_some left request _ common
      simp only [found, Option.some_or, common, true_or]
    · have silent := first_corridor_silent left request _ common
      simp only [silent, Option.none_or, common, false_or]
      by_cases between : left.Answers request
          ((chain.corridors.take chain'.confined).drop chain.confined)
      · obtain ⟨hit, found⟩ := first_corridor_some left request _ between
        simp [found, between, outcome, Except.map, Resolution.shown]
      · have quiet := first_corridor_silent left request _ between
        simp only [quiet, between, not_false_eq_true]

end Scope

end Ikigai
