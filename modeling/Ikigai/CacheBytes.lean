import Ikigai.CacheMeasures

/-!
# The byte total

The total is kept by adding what is stored and subtracting what leaves, both saturating. It is
exact as long as nothing with a length leaves while more is held than a word can count: from
there on the total says less than is held. A body of unknown length counts as everything a word can
count, so two entries are enough.
-/

namespace Ikigai

namespace CacheState

/-- The total is the sum of what is held, saturated. -/
def CountExact (state : CacheState) : Prop := state.bytes = min state.heldBytes wordMax

/-- Whatever a change takes out is empty, or is taken while a word can count what is held. -/
def TakesCounted (before after : CacheState) : Prop :=
  ∀ key slot, before.entries.lookup key = some slot → after.entries.lookup key = none →
    slot.bytes = 0 ∨ before.heldBytes ≤ wordMax

/-- An entry's size fits a word: it is capped there. -/
theorem bytes_le_word (slot : Slot) : slot.bytes ≤ wordMax := by
  rw [Slot.bytes, bodySize]
  split
  · exact min_le_right _ _
  · exact le_rfl

/-- What is held is an entry's size and what is held without it. -/
theorem held_bytes_evict (state : CacheState) (key : CacheKey) (slot : Slot)
    (held : state.entries.lookup key = some slot) :
    state.heldBytes = slot.bytes + (state.evict key).heldBytes := by
  rw [heldBytes, heldBytes, entries_evict]
  exact held_bytes_erase state key slot held

/-- An entry that leaves takes its bytes from an exact total exactly when it is empty or a word
can count what is held. -/
theorem evict_exact_iff (state : CacheState) (key : CacheKey) (slot : Slot)
    (held : state.entries.lookup key = some slot) (exact_ : state.CountExact) :
    (state.evict key).CountExact ↔ slot.bytes = 0 ∨ state.heldBytes ≤ wordMax := by
  have total := held_bytes_evict state key slot held
  have short := bytes_le_word slot
  have bytes : (state.evict key).bytes = state.bytes - slot.bytes := by rw [evict, held]
  rw [CountExact] at exact_ ⊢
  omega

/-- Evicting keeps the count exact where what is taken off was counted. -/
theorem CountExact.evict {state : CacheState} (exact_ : state.CountExact) (key : CacheKey)
    (counted : state.TakesCounted (state.evict key)) : (state.evict key).CountExact := by
  cases held : state.entries.lookup key with
  | none =>
    rw [CacheState.evict, held]
    exact exact_
  | some slot =>
    refine (evict_exact_iff state key slot held exact_).mpr (counted key slot held ?_)
    rw [lookup_evict, if_pos rfl]

/-- Touching an entry keeps the count exact. -/
theorem CountExact.touch {state : CacheState} (exact_ : state.CountExact) (key : CacheKey)
    (slot : Slot) (held : state.entries.lookup key = some slot) :
    (state.touch key slot).CountExact := by
  have after : (state.touch key slot).heldBytes = state.heldBytes := by
    rw [held_bytes_erase state key slot held, heldBytes, CacheState.touch, held_bytes_insert]
    rfl
  rw [CountExact, after]
  exact exact_

/-- The count depends on the entries and the counter alone. -/
theorem CountExact.of_same {state after : CacheState} (exact_ : state.CountExact)
    (entries : after.entries = state.entries) (bytes : after.bytes = state.bytes) :
    after.CountExact := by
  rw [CountExact, bytes, heldBytes, entries]
  exact exact_

/-- An entry is filed in place of one that may leave. -/
theorem CountExact.put {state : CacheState} (exact_ : state.CountExact) (key : CacheKey)
    (slot : Slot) (counted : ∀ replaced, state.entries.lookup key = some replaced →
      replaced.bytes = 0 ∨ state.heldBytes ≤ wordMax) : (state.put key slot).CountExact := by
  have before : state.bytes = min state.heldBytes wordMax := exact_
  simp only [CountExact, CacheState.put, heldBytes, held_bytes_insert, saturatingAdd]
  cases held : state.entries.lookup key with
  | none =>
    rw [heldBytes, ← KeyedMap.erase_of_lookup_none state.entries key held] at before
    dsimp only
    omega
  | some replaced =>
    have may := counted replaced held
    rw [held_bytes_erase state key replaced held] at before may
    dsimp only
    omega

end CacheState

open CacheState

namespace ReprCache

variable {π τ : Type}

/-- A lookup leaves the state as it was, counts a hit or evicts the entry it found. -/
theorem serve_or_offer_state (cache : ReprCache π) (key : CacheKey) (now : Option Time)
    (face : Slot → Option τ) (offer : Slot → Option Offer) :
    (cache.serveOrOffer key now face offer).1.state = cache.state ∨
      (∃ slot, cache.state.entries.lookup key = some slot ∧
        (cache.serveOrOffer key now face offer).1.state = cache.state.touch key slot) ∨
      (cache.serveOrOffer key now face offer).1.state = cache.state.evict key := by
  cases held : cache.state.entries.lookup key with
  | none => simp only [serveOrOffer, held, true_or]
  | some entry =>
    cases judged : cache.state.stateOf entry now with
    | live =>
      cases shown : face entry with
      | none => simp only [serveOrOffer, held, judged, shown, true_or]
      | some answer =>
        simp only [serveOrOffer, held, judged, shown]
        exact .inr (.inl ⟨entry, rfl, rfl⟩)
    | cut =>
      simp only [serveOrOffer, held, judged]
      exact .inr (.inr trivial)
    | expired =>
      by_cases carries : entry.representation.validator.isSome = true
      · cases offered : offer entry <;>
          simp only [serveOrOffer, held, judged, carries, offered, if_true, true_or]
      · simp only [serveOrOffer, held, judged, carries, if_false, Bool.false_eq_true]
        exact .inr (.inr trivial)

/-- A lookup keeps the count exact, also where it drops what has expired. -/
theorem serve_or_offer_exact (cache : ReprCache π) (key : CacheKey) (now : Option Time)
    (face : Slot → Option τ) (offer : Slot → Option Offer) (exact_ : cache.state.CountExact)
    (counted : cache.state.TakesCounted (cache.serveOrOffer key now face offer).1.state) :
    (cache.serveOrOffer key now face offer).1.state.CountExact := by
  rcases cache.serve_or_offer_state key now face offer with same | ⟨slot, held, same⟩ | same
  · rw [same]
    exact exact_
  · rw [same]
    exact exact_.touch key slot held
  · rw [same] at counted ⊢
    exact exact_.evict key counted

/-- Asking for a failure touches no entry. -/
theorem get_failure_entries (cache : ReprCache π) (key : CacheKey) (now : Option Time)
    (incoming : Option Provenance) :
    (cache.getFailure key now incoming).1.state.entries = cache.state.entries ∧
      (cache.getFailure key now incoming).1.state.bytes = cache.state.bytes := by
  cases held : cache.state.failures.lookup key with
  | none =>
    simp only [getFailure, held, and_self]
  | some slot =>
    cases judged : cache.state.failureState slot now <;>
      simp only [getFailure, held, judged, and_self]

variable [CachePolicy π]

/-- A candidate's entry on file, before the bound is enforced. -/
def candidateFiled (cache : ReprCache π) (key : CacheKey) (target : Text)
    (representation : Representation) (costMillis : Option Nat) (incoming : Option Provenance) :
    ReprCache π :=
  let candidate := candidateFacts cache.state key target representation costMillis
  cache.filed (askContest cache.state (CachePolicy.admits cache.policy candidate).2 key candidate).2
    key (freshSlot cache.state target representation costMillis incoming)

/-- In a step, whatever leaves the cache is empty, or leaves while a word can count what is held:
what a store replaces and what each round of eviction takes, or what another operation takes. -/
def StepCounted (cache : ReprCache π) : CacheOp → Prop
  | .store key target representation taken costMillis incoming =>
    (cache.storeOutcome key target representation taken costMillis incoming).2 = .ok () →
      let filed := cache.candidateFiled key target representation costMillis incoming
      let round := enforceRound (CachePolicy.capacity filed.policy)
        (CachePolicy.partitioned filed.policy)
      cache.state.TakesCounted (cache.state.evict key) ∧
        ∀ start ∈ Rounds.starts round (filed.state.entries.length + 1) filed,
          start.state.TakesCounted (round start).1.state
  | op => cache.state.TakesCounted (cache.perform op).1.state

/-- A round of eviction keeps the count exact. -/
theorem enforce_round_exact (bound : CacheBound) (partitioned : Bool) (cache : ReprCache π)
    (counted : cache.state.TakesCounted (enforceRound bound partitioned cache).1.state)
    (exact_ : cache.state.CountExact) :
    (enforceRound bound partitioned cache).1.state.CountExact := by
  rcases enforce_round_cases bound partitioned cache with ⟨policy, round⟩ | ⟨policy, entry, _, round⟩
  · rw [round]
    exact exact_
  · rw [round] at counted ⊢
    exact exact_.evict entry.1 counted

/-- Every operation keeps the count exact where what it takes off was counted. -/
theorem perform_exact (cache : ReprCache π) (op : CacheOp) (exact_ : cache.state.CountExact)
    (counted : cache.StepCounted op) : (cache.perform op).1.state.CountExact := by
  cases op with
  | snapshot => exact exact_
  | publish => exact exact_
  | recordCut thread => exact exact_.of_same rfl rfl
  | cutWith thread => exact exact_.of_same rfl rfl
  | store key target representation taken costMillis incoming =>
    rcases store_outcome_cases cache key target representation taken costMillis incoming with
      ⟨tick, remembers, declined, _, _, outcome⟩ | ⟨remembers, enforced, _, _, _, asked, rfl, outcome⟩
    · simp only [perform, outcome]
      exact exact_.of_same rfl rfl
    · obtain ⟨replaces, rounds⟩ := counted (by rw [outcome])
      have filed_eq : cache.candidateFiled key target representation costMillis incoming =
          cache.filed remembers key
            (freshSlot cache.state target representation costMillis incoming) := by
        rw [candidateFiled, asked]
      rw [filed_eq] at rounds
      have ticked : ({ cache.state with tick := cache.state.tick + 1 } : CacheState).CountExact :=
        exact_.of_same rfl rfl
      have filed := ticked.put key
        (freshSlot cache.state target representation costMillis incoming) fun replaced held =>
          replaces key replaced held (by rw [lookup_evict, if_pos rfl])
      have enforced := Rounds.rounds_keep_where (fun after : ReprCache π => after.state.CountExact)
        _ (fun start fits holds => enforce_round_exact _ _ start fits holds) _
        (cache.filed remembers key
          (freshSlot cache.state target representation costMillis incoming)) rounds filed
      simp only [perform, outcome]
      refine CountExact.of_same enforced ?_ ?_ <;> rw [sweepGenerations] <;> split <;> rfl
  | storeFailure key target error until_ threads taken incoming =>
    rcases store_failure_cases cache key target error until_ threads taken incoming with
      ⟨declined, outcome⟩ | ⟨_, room, _, outcome⟩ <;>
        simp only [perform, outcome] <;> exact exact_.of_same rfl rfl
  | get key now => exact serve_or_offer_exact _ _ _ _ _ exact_ counted
  | getBody key now => exact serve_or_offer_exact _ _ _ _ _ exact_ counted
  | lookup key now buffer incoming offer => exact serve_or_offer_exact _ _ _ _ _ exact_ counted
  | getFailure key now incoming =>
    obtain ⟨entries, bytes⟩ := get_failure_entries cache key now incoming
    exact exact_.of_same entries bytes
  | discard key offer =>
    simp only [StepCounted, perform] at counted ⊢
    cases offer with
    | none => exact exact_
    | some offer =>
      rw [discard] at counted ⊢
      split at counted
      · rename_i matches_
        rw [if_pos matches_]
        exact exact_.evict key counted
      · rename_i other
        rw [if_neg other]
        exact exact_

/-- Every step of a run is counted. -/
def RunCounted : ReprCache π → List CacheOp → Prop
  | _, [] => True
  | cache, op :: rest => cache.StepCounted op ∧ RunCounted (cache.perform op).1 rest

/-- So does every run of such operations. -/
theorem foldl_exact (cache : ReprCache π) (ops : List CacheOp) (exact_ : cache.state.CountExact)
    (counted : cache.RunCounted ops) :
    (ops.foldl (fun cache op => (cache.perform op).1) cache).state.CountExact := by
  induction ops generalizing cache with
  | nil => exact exact_
  | cons op rest ih => exact ih _ (perform_exact cache op exact_ counted.1) counted.2

/-- A run whose steps count counts at each of its beginnings. -/
theorem RunCounted.of_append (cache : ReprCache π) (before rest : List CacheOp)
    (counted : cache.RunCounted (before ++ rest)) : cache.RunCounted before := by
  induction before generalizing cache with
  | nil => trivial
  | cons op before ih => exact ⟨counted.1, ih _ counted.2⟩

/-- In every run whose steps are counted the total is exact in every state reached. -/
theorem total_exact_while_counted (policy : π) (ops : List CacheOp)
    (counted : (new policy).RunCounted ops) (before rest : List CacheOp)
    (reached : ops = before ++ rest) : (after policy before).state.CountExact := by
  subst reached
  exact foldl_exact (new policy) before rfl counted.of_append

end ReprCache

namespace UnknownLengthExample

def key (content : UInt8) : CacheKey := ⟨⟨Vector.replicate 32 content⟩, 0, 0⟩

def answer (body : Body) (expiry : Expiry) : Representation where
  reprType := ⟨"text/plain".toList, []⟩
  body := body
  expiry := expiry
  threads := .empty
  validator := none
  revalidated := false

/-- The least recently used gives way, with no bound in bytes. -/
def policy : ShippedPolicy := .simple (.lru ⟨8, wordMax⟩)

def store (content : UInt8) (body : Body) (expiry : Expiry) : CacheOp :=
  .store (key content) "urn:page".toList (answer body expiry) 0 none none

/-- A body of unknown length and three bytes are stored, and the first expires. -/
def unknown : List CacheOp :=
  [store 1 (.replay 0 none) (.«at» 5), store 2 (.bytes [1, 2, 3]) .never, .getBody (key 1) (some 10)]

/-- The same with a body whose length is known. -/
def known : List CacheOp :=
  [store 1 (.replay 0 (some 7)) (.«at» 5), store 2 (.bytes [1, 2, 3]) .never,
    .getBody (key 1) (some 10)]

/-- Three bytes are held, and the total says none. -/
theorem total_forgets_three_bytes :
    ¬∀ (policy : ShippedPolicy) (ops : List CacheOp),
      (ReprCache.after policy ops).state.CountExact := by
  intro exact_
  exact absurd (exact_ policy unknown) (by unfold CountExact; decide)

/-- Where what is held fits a word, what is taken off was counted. -/
theorem counted_of_held {before after : CacheState} (fits : before.heldBytes ≤ wordMax) :
    before.TakesCounted after := fun _ _ _ _ => .inr fits

/-- A body of known length is counted exactly. -/
theorem known_length_is_counted :
    (ReprCache.after policy known).state.CountExact :=
  ReprCache.total_exact_while_counted policy known
    ⟨fun _ => ⟨counted_of_held (by decide), fun start member => counted_of_held
        ((by decide : ∀ start ∈ _, start.state.heldBytes ≤ wordMax) start member)⟩,
      fun _ => ⟨counted_of_held (by decide), fun start member => counted_of_held
        ((by decide : ∀ start ∈ _, start.state.heldBytes ≤ wordMax) start member)⟩,
      counted_of_held (by decide), trivial⟩ known [] (by rfl)

end UnknownLengthExample

end Ikigai
