import Ikigai.NumberedLog
import Ikigai.ReprCache

/-!
# What a cache operation leaves unchanged

Apart from a store and a cut, an operation only ever trims the state: it counts a hit, moves
the tick, removes entries and failures, and forgets generations nothing is pinned to. A
store does the same after it has put its own entry. Later arguments use these facts and
not the operations.
-/

namespace Ikigai

namespace CacheState

/-- Whether an edge on a thread is pinned somewhere. -/
theorem pinned_iff (state : CacheState) (thread : Thread) :
    state.pinned thread = true ↔
      (∃ key slot, state.entries.lookup key = some slot ∧ ∃ edge ∈ slot.edges, edge.1 = thread) ∨
        ∃ key slot, state.failures.lookup key = some slot ∧ ∃ edge ∈ slot.edges, edge.1 = thread := by
  simp only [pinned, Bool.or_eq_true, List.any_eq_true, KeyedMap.mem_values_iff, beq_iff_eq]
  constructor
  · rintro (⟨slot, ⟨key, held⟩, edge⟩ | ⟨slot, ⟨key, held⟩, edge⟩)
    · exact .inl ⟨key, slot, held, edge⟩
    · exact .inr ⟨key, slot, held, edge⟩
  · rintro (⟨key, slot, held, edge⟩ | ⟨key, slot, held, edge⟩)
    · exact .inl ⟨slot, ⟨key, held⟩, edge⟩
    · exact .inr ⟨slot, ⟨key, held⟩, edge⟩

/-- What a state may become when nothing is stored and nothing is cut: what is held was
held before, the cut log is the same, and a thread something is pinned to keeps its
generation. -/
structure Shrinks (before after : CacheState) : Prop where
  seq : after.seq = before.seq
  cuts : after.cuts = before.cuts
  horizon : after.horizon = before.horizon
  entry : ∀ key slot, after.entries.lookup key = some slot →
    ∃ old, before.entries.lookup key = some old ∧ slot.target = old.target ∧
      slot.representation = old.representation ∧ slot.edges = old.edges
  failure : ∀ key slot, after.failures.lookup key = some slot →
    before.failures.lookup key = some slot
  generation : ∀ thread, after.pinned thread = true →
    after.generationOf thread = before.generationOf thread

namespace Shrinks

/-- A state has shrunk to itself. -/
theorem refl (state : CacheState) : Shrinks state state where
  seq := rfl
  cuts := rfl
  horizon := rfl
  entry := fun _ slot held => ⟨slot, held, rfl, rfl, rfl⟩
  failure := fun _ _ held => held
  generation := fun _ _ => rfl

/-- What is pinned after was pinned before. -/
theorem pinned {before after : CacheState} (shrinks : Shrinks before after) (thread : Thread)
    (held : after.pinned thread = true) : before.pinned thread = true := by
  rw [pinned_iff] at held ⊢
  rcases held with ⟨key, slot, held, edge, inside, same⟩ | ⟨key, slot, held, edge⟩
  · obtain ⟨old, there, _, _, edges⟩ := shrinks.entry key slot held
    exact .inl ⟨key, old, there, edge, edges ▸ inside, same⟩
  · exact .inr ⟨key, slot, shrinks.failure key slot held, edge⟩

/-- What has shrunk twice has shrunk. -/
theorem trans {first second third : CacheState} (one : Shrinks first second)
    (two : Shrinks second third) : Shrinks first third where
  seq := two.seq.trans one.seq
  cuts := two.cuts.trans one.cuts
  horizon := two.horizon.trans one.horizon
  entry := by
    intro key slot held
    obtain ⟨middle, between, name, shown, edges⟩ := two.entry key slot held
    obtain ⟨old, there, name', shown', edges'⟩ := one.entry key middle between
    exact ⟨old, there, name.trans name', shown.trans shown', edges.trans edges'⟩
  failure := fun key slot held => one.failure key slot (two.failure key slot held)
  generation := fun thread held =>
    (two.generation thread held).trans (one.generation thread (two.pinned thread held))

/-- A change of the entries alone. -/
theorem of_entries {before after : CacheState} (seq : after.seq = before.seq)
    (cuts : after.cuts = before.cuts) (horizon : after.horizon = before.horizon)
    (failures : after.failures = before.failures)
    (generations : after.generations = before.generations)
    (entry : ∀ key slot, after.entries.lookup key = some slot →
      ∃ old, before.entries.lookup key = some old ∧ slot.target = old.target ∧
        slot.representation = old.representation ∧ slot.edges = old.edges) :
    Shrinks before after where
  seq := seq
  cuts := cuts
  horizon := horizon
  entry := entry
  failure := fun _ _ held => failures ▸ held
  generation := fun _ _ => by rw [generationOf, generationOf, generations]

end Shrinks

/-- Evicting a key removes its entry and nothing else. -/
theorem entries_evict (state : CacheState) (key : CacheKey) :
    (state.evict key).entries = state.entries.erase key := by
  cases held : state.entries.lookup key with
  | none =>
    rw [KeyedMap.erase_of_lookup_none state.entries key held, evict, held]
  | some slot =>
    rw [evict, held]

/-- An entry evicted is gone, and no other. -/
theorem lookup_evict (state : CacheState) (key asked : CacheKey) :
    (state.evict key).entries.lookup asked =
      if asked = key then none else state.entries.lookup asked := by
  rw [entries_evict, KeyedMap.lookup_erase_eq]

/-- Evicting shrinks the state. -/
theorem evict_shrinks (state : CacheState) (key : CacheKey) : Shrinks state (state.evict key) := by
  apply Shrinks.of_entries
  case entry =>
    intro asked slot held
    rw [lookup_evict] at held
    by_cases same : asked = key
    · rw [if_pos same] at held
      cases held
    · rw [if_neg same] at held
      exact ⟨slot, held, rfl, rfl, rfl⟩
  all_goals
    rw [evict]
    cases state.entries.lookup key <;> rfl

/-- Touching an entry moves its clock and nothing that a shrunk state must keep. -/
theorem touch_shrinks (state : CacheState) (key : CacheKey) (slot : Slot)
    (held : state.entries.lookup key = some slot) : Shrinks state (state.touch key slot) := by
  apply Shrinks.of_entries <;> try rfl
  intro asked found there
  simp only [touch, KeyedMap.lookup_insert_eq] at there
  by_cases same : asked = key
  · rw [if_pos same] at there
    cases there
    exact ⟨slot, same ▸ held, rfl, rfl, rfl⟩
  · rw [if_neg same] at there
    exact ⟨found, there, rfl, rfl, rfl⟩

/-- A swept generation is one nothing is pinned to. -/
theorem sweep_shrinks (state : CacheState) (maxEntries : Nat) :
    Shrinks state (state.sweepGenerations maxEntries) := by
  rw [sweepGenerations]
  split
  · exact Shrinks.refl state
  · exact {
      seq := rfl
      cuts := rfl
      horizon := rfl
      entry := fun _ slot held => ⟨slot, held, rfl, rfl, rfl⟩
      failure := fun _ _ held => held
      generation := by
        intro thread held
        have kept : state.pinned thread = true := held
        simp only [generationOf, KeyedMap.lookup_retain]
        cases state.generations.lookup thread with
        | none => rfl
        | some generation => rw [Option.filter_some, kept]; rfl }

/-- Dropping a failure shrinks the state. -/
theorem drop_failure_shrinks (state : CacheState) (key : CacheKey) :
    Shrinks state { state with failures := state.failures.erase key } where
  seq := rfl
  cuts := rfl
  horizon := rfl
  entry := fun _ slot held => ⟨slot, held, rfl, rfl, rfl⟩
  failure := by
    intro asked slot held
    rw [KeyedMap.lookup_erase_eq] at held
    by_cases same : asked = key
    · rw [if_pos same] at held
      cases held
    · rwa [if_neg same] at held
  generation := fun _ _ => rfl

/-- What an operation that neither stores nor cuts may do to the state, step by step. -/
inductive Trims : CacheState → CacheState → Prop where
  | refl (state : CacheState) : Trims state state
  | trans {first second third : CacheState} (one : Trims first second) (two : Trims second third) :
    Trims first third
  | evict (state : CacheState) (key : CacheKey) : Trims state (state.evict key)
  | touch (state : CacheState) (key : CacheKey) (slot : Slot)
    (held : state.entries.lookup key = some slot) : Trims state (state.touch key slot)
  | tick (state : CacheState) (tick : Nat) (later : state.tick ≤ tick) :
    Trims state { state with tick := tick }
  | sweep (state : CacheState) (maxEntries : Nat) :
    Trims state (state.sweepGenerations maxEntries)
  | dropFailure (state : CacheState) (key : CacheKey) :
    Trims state { state with failures := state.failures.erase key }

/-- Trimming shrinks the state. -/
theorem Trims.shrinks {before after : CacheState} (trims : Trims before after) :
    Shrinks before after := by
  induction trims with
  | refl state => exact Shrinks.refl state
  | trans _ _ one two => exact one.trans two
  | evict state key => exact evict_shrinks state key
  | touch state key slot held => exact touch_shrinks state key slot held
  | tick state tick later =>
    exact Shrinks.of_entries rfl rfl rfl rfl rfl fun _ slot held => ⟨slot, held, rfl, rfl, rfl⟩
  | sweep state maxEntries => exact sweep_shrinks state maxEntries
  | dropFailure state key => exact drop_failure_shrinks state key

end CacheState

open CacheState

namespace ReprCache

variable {π τ : Type}

/-- What a lookup may do to the cache, and what it answers: a hit comes from an entry
that is live. -/
theorem serve_or_offer_spec (cache : ReprCache π) (key : CacheKey) (now : Option Time)
    (face : Slot → Option τ) (offer : Slot → Option Offer) :
    Trims cache.state (cache.serveOrOffer key now face offer).1.state ∧
      (cache.serveOrOffer key now face offer).1 =
        { cache with state := (cache.serveOrOffer key now face offer).1.state } ∧
      ∀ answer, (cache.serveOrOffer key now face offer).2 = .hit answer →
        ∃ slot, cache.state.entries.lookup key = some slot ∧
          cache.state.stateOf slot now = .live ∧ face slot = some answer := by
  cases held : cache.state.entries.lookup key with
  | none =>
    simp only [serveOrOffer, held]
    exact ⟨Trims.refl _, trivial, nofun⟩
  | some entry =>
    cases judged : cache.state.stateOf entry now with
    | live =>
      cases shown : face entry with
      | none =>
        simp only [serveOrOffer, held, judged, shown]
        exact ⟨Trims.refl _, trivial, nofun⟩
      | some answer =>
        simp only [serveOrOffer, held, judged, shown]
        refine ⟨Trims.touch _ key entry held, trivial, ?_⟩
        rintro other ⟨⟩
        exact ⟨entry, rfl, judged, shown⟩
    | cut =>
      simp only [serveOrOffer, held, judged]
      exact ⟨Trims.evict _ key, trivial, nofun⟩
    | expired =>
      by_cases carries : entry.representation.validator.isSome = true
      · cases offered : offer entry <;>
          simp only [serveOrOffer, held, judged, carries, offered, if_true] <;>
          exact ⟨Trims.refl _, trivial, nofun⟩
      · simp only [serveOrOffer, held, judged, carries, if_false, Bool.false_eq_true]
        exact ⟨Trims.evict _ key, trivial, nofun⟩

/-- Discarding an offer trims the state, and changes nothing beside it. -/
theorem discard_trims (cache : ReprCache π) (key : CacheKey) (offer : Option Offer) :
    Trims cache.state (cache.discard key offer).state ∧
      cache.discard key offer = { cache with state := (cache.discard key offer).state } := by
  cases offer with
  | none => exact ⟨Trims.refl _, rfl⟩
  | some offer =>
    simp only [discard]
    split
    · exact ⟨Trims.evict _ key, rfl⟩
    · exact ⟨Trims.refl _, rfl⟩

/-- A failure that is served stands under the key and is live. -/
theorem get_failure_spec (cache : ReprCache π) (key : CacheKey) (now : Option Time)
    (incoming : Option Provenance) :
    Trims cache.state (cache.getFailure key now incoming).1.state ∧
      (cache.getFailure key now incoming).1 =
        { cache with state := (cache.getFailure key now incoming).1.state } ∧
      ∀ failure, (cache.getFailure key now incoming).2 = some failure →
        ∃ slot, cache.state.failures.lookup key = some slot ∧
          cache.state.failureState slot now = .live ∧
          failure = ⟨slot.error, slot.until_, slot.threads⟩ := by
  cases held : cache.state.failures.lookup key with
  | none =>
    simp only [getFailure, held]
    exact ⟨Trims.refl _, trivial, nofun⟩
  | some slot =>
    cases judged : cache.state.failureState slot now with
    | live =>
      simp only [getFailure, held, judged]
      refine ⟨Trims.refl _, trivial, ?_⟩
      intro failure shown
      by_cases same : slot.incoming = incoming
      · rw [if_pos same, Option.some.injEq] at shown
        exact ⟨slot, rfl, judged, shown.symm⟩
      · rw [if_neg same] at shown
        cases shown
    | cut =>
      simp only [getFailure, held, judged]
      exact ⟨Trims.dropFailure _ key, trivial, nofun⟩
    | expired =>
      simp only [getFailure, held, judged]
      exact ⟨Trims.dropFailure _ key, trivial, nofun⟩

/-- A failure is declined with nothing changed, or replaces what stood under its key, with
at most one other failure dropped to make room. -/
theorem store_failure_cases (cache : ReprCache π) (key : CacheKey) (target : Text) (error : Error)
    (until_ : Time) (threads : ThreadSet) (taken : Nat) (incoming : Option Provenance) :
    (∃ declined, cache.storeFailure key target error until_ threads taken incoming =
        (cache, .error declined)) ∨
      cache.state.cutSince threads taken = false ∧ ∃ room : KeyedMap CacheKey FailedSlot,
        (∀ asked slot, room.lookup asked = some slot →
          cache.state.failures.lookup asked = some slot) ∧
        cache.storeFailure key target error until_ threads taken incoming =
          ({ cache with
              state := { cache.state with
                failures := room.insert key
                  ⟨incoming, target, error, until_, threads, cache.state.pin threads⟩ }
              failedOnce := true }, .ok ()) := by
  rw [storeFailure]
  by_cases raced : cache.state.cutSince threads taken = true
  · rw [if_pos raced]
    exact .inl ⟨.cutInFlight, rfl⟩
  · rw [if_neg raced]
    refine .inr ⟨by simpa using raced, _, ?_, rfl⟩
    intro asked slot held
    split at held
    · cases first : soonest cache.state.failures with
      | none => simpa only [first] using held
      | some oldest =>
        simp only [first, KeyedMap.lookup_erase_eq] at held
        by_cases same : asked = oldest
        · rw [if_pos same] at held
          cases held
        · rwa [if_neg same] at held
    · exact held

section Policy

variable [CachePolicy π]

/-- A round that goes on has evicted one entry of the cache. -/
theorem enforce_round_cases (bound : CacheBound) (partitioned : Bool) (cache : ReprCache π) :
    (∃ policy, enforceRound bound partitioned cache = ({ cache with policy := policy }, false)) ∨
      ∃ policy entry, entry ∈ cache.state.entries.entries ∧
        enforceRound bound partitioned cache =
          ({ cache with state := cache.state.evict entry.1, policy := policy }, true) := by
  rw [enforceRound]
  extract_lets facts asked chosen
  by_cases within : (!overBound bound cache.state && !partitioned) = true
  · rw [if_pos within]
    exact .inl ⟨cache.policy, rfl⟩
  · rw [if_neg within]
    by_cases settled : (!asked.1) = true
    · rw [if_pos settled]
      exact .inl ⟨_, rfl⟩
    · rw [if_neg settled]
      cases named : chosen.1.bind fun index => cache.state.entries.entries[index]? with
      | none => exact .inl ⟨_, rfl⟩
      | some entry =>
        obtain ⟨index, _, found⟩ := Option.bind_eq_some_iff.mp named
        exact .inr ⟨_, entry, List.mem_of_getElem? found, rfl⟩

/-- A round of eviction trims the state, and publishes no cut. -/
theorem enforce_round_trims (bound : CacheBound) (partitioned : Bool) (cache : ReprCache π) :
    Trims cache.state (enforceRound bound partitioned cache).1.state ∧
      (enforceRound bound partitioned cache).1.cutSeq = cache.cutSeq := by
  rcases enforce_round_cases bound partitioned cache with ⟨policy, round⟩ | ⟨policy, entry, _, round⟩
  · rw [round]
    exact ⟨Trims.refl _, rfl⟩
  · rw [round]
    exact ⟨Trims.evict cache.state entry.1, rfl⟩

/-- So does enforcing the bound, over all its rounds. -/
theorem enforce_bound_trims (cache : ReprCache π) :
    Trims cache.state (enforceBound cache).state ∧ (enforceBound cache).cutSeq = cache.cutSeq := by
  rw [enforceBound]
  apply Rounds.rounds_keep fun after : ReprCache π =>
    Trims cache.state after.state ∧ after.cutSeq = cache.cutSeq
  · rintro after ⟨trims, same⟩
    obtain ⟨further, kept⟩ := enforce_round_trims (CachePolicy.capacity cache.policy)
      (CachePolicy.partitioned cache.policy) after
    exact ⟨trims.trans further, kept.trans same⟩
  · exact ⟨Trims.refl _, rfl⟩

/-- The entry a store files. -/
def freshSlot (state : CacheState) (target : Text) (representation : Representation)
    (costMillis : Option Nat) (incoming : Option Provenance) : Slot :=
  ⟨incoming, target, representation, state.pin representation.threads, costMillis, 0,
    state.tick + 1, state.tick + 1⟩

/-- A candidate is judged by what its entry would report. -/
theorem candidate_facts_eq (state : CacheState) (key : CacheKey) (target : Text)
    (representation : Representation) (costMillis : Option Nat) (incoming : Option Provenance) :
    candidateFacts state key target representation costMillis =
      (freshSlot state target representation costMillis incoming).facts key.request := rfl

/-- The cache with an entry filed, before its bound is enforced. -/
def filed (cache : ReprCache π) (policy : π) (key : CacheKey) (slot : Slot) : ReprCache π :=
  { cache with
    state := ({ cache.state with tick := cache.state.tick + 1 } : CacheState).put key slot
    policy := policy }

/-- A store is declined with at most a tick and the policy's memory changed, or the policy
takes the candidate, its entry is filed, the bound is enforced and the generations are
swept. -/
theorem store_outcome_cases (cache : ReprCache π) (key : CacheKey) (target : Text)
    (representation : Representation) (taken : Nat) (costMillis : Option Nat)
    (incoming : Option Provenance) :
    (∃ tick policy declined, cache.state.tick ≤ tick ∧
      (policy = cache.policy ∨
        policy = (CachePolicy.admits cache.policy
          (candidateFacts cache.state key target representation costMillis)).2 ∨
        policy = (askContest cache.state (CachePolicy.admits cache.policy
            (candidateFacts cache.state key target representation costMillis)).2 key
          (candidateFacts cache.state key target representation costMillis)).2) ∧
      cache.storeOutcome key target representation taken costMillis incoming =
        ({ cache with state := { cache.state with tick := tick }, policy := policy },
          .error declined)) ∨
      ∃ policy enforced,
        representation.body.isOneShot = false ∧
        cache.state.cutSince representation.threads taken = false ∧
        (CachePolicy.admits cache.policy
          (candidateFacts cache.state key target representation costMillis)).1 = true ∧
        askContest cache.state (CachePolicy.admits cache.policy
            (candidateFacts cache.state key target representation costMillis)).2 key
          (candidateFacts cache.state key target representation costMillis) = (true, policy) ∧
        enforced = enforceBound (cache.filed policy key
          (freshSlot cache.state target representation costMillis incoming)) ∧
        cache.storeOutcome key target representation taken costMillis incoming =
          ({ enforced with
              state := enforced.state.sweepGenerations
                (CachePolicy.capacity enforced.policy).maxEntries }, .ok ()) := by
  rw [storeOutcome]
  split
  · exact .inl ⟨cache.state.tick, cache.policy, .policy, le_rfl, .inl rfl, rfl⟩
  · rename_i reusable
    have reusable : representation.body.isOneShot = false := by simpa using reusable
    split
    · exact .inl ⟨cache.state.tick, cache.policy, .cutInFlight, le_rfl, .inl rfl, rfl⟩
    · rename_i uncut
      dsimp only
      split
      · exact .inl ⟨_, _, .policy, Nat.le_succ _, .inr (.inl rfl), rfl⟩
      · rename_i admitted
        split
        · exact .inl ⟨_, _, .policy, Nat.le_succ _, .inr (.inr rfl), rfl⟩
        · rename_i contested
          rw [representation.share_of_reusable reusable]
          refine .inr ⟨_, _, reusable, by simpa using uncut, by simpa using admitted, ?_, rfl, rfl⟩
          exact Prod.ext ((Bool.not_eq_false _).mp fun refused => contested (by
            have same : (askContest cache.state _ key _).1 = false := refused
            exact congrArg not same)) rfl

end Policy

end ReprCache

end Ikigai
