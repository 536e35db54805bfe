import Ikigai.CacheHistory

/-!
# Ticks and bytes

After every run the entries' ticks are apart and behind the cache's own, and the running
byte total is at most what the entries hold. Saturation can only make it less.
-/

namespace Ikigai

open CacheState

namespace CacheState

/-- The bytes of all entries, as they are. -/
def heldBytes (state : CacheState) : Nat :=
  (state.entries.entries.map fun entry => entry.2.bytes).sum

/-- Ticks apart and in the past, and a byte total no more than is held. -/
structure Measured (state : CacheState) : Prop where
  used : ∀ key slot, state.entries.lookup key = some slot → slot.lastUsedTick ≤ state.tick
  stored : ∀ key slot, state.entries.lookup key = some slot → slot.storedTick ≤ state.tick
  usedApart : ∀ key other slot slot', state.entries.lookup key = some slot →
    state.entries.lookup other = some slot' → slot.lastUsedTick = slot'.lastUsedTick → key = other
  storedApart : ∀ key other slot slot', state.entries.lookup key = some slot →
    state.entries.lookup other = some slot' → slot.storedTick = slot'.storedTick → key = other
  bytes : state.bytes ≤ state.heldBytes
  word : state.bytes ≤ wordMax

/-- What is held is an entry's size and what is held without it. -/
theorem held_bytes_erase (state : CacheState) (key : CacheKey) (slot : Slot)
    (held : state.entries.lookup key = some slot) :
    state.heldBytes =
      slot.bytes + ((state.entries.erase key).entries.map fun entry => entry.2.bytes).sum := by
  have perm := (KeyedMap.entries_perm_erase state.entries key slot held).map
    fun entry => entry.2.bytes
  rw [heldBytes, perm.sum_eq, List.map_cons, List.sum_cons]

/-- An entry put in adds its size to what is held without its key. -/
theorem held_bytes_insert (entries : KeyedMap CacheKey Slot) (key : CacheKey) (slot : Slot) :
    ((entries.insert key slot).entries.map fun entry => entry.2.bytes).sum =
      slot.bytes + ((entries.erase key).entries.map fun entry => entry.2.bytes).sum := by
  rw [AList.entries_insert, List.map_cons, List.sum_cons]
  rfl

namespace Measured

/-- The empty cache measures nothing. -/
theorem empty : Measured CacheState.empty where
  used := fun _ _ held => nomatch held
  stored := fun _ _ held => nomatch held
  usedApart := fun _ _ _ _ held => nomatch held
  storedApart := fun _ _ _ _ held => nomatch held
  bytes := Nat.zero_le _
  word := Nat.zero_le _

/-- A change of something else. -/
theorem of_same {state after : CacheState} (measured : Measured state)
    (entries : after.entries = state.entries) (tick : state.tick ≤ after.tick)
    (bytes : after.bytes = state.bytes) : Measured after where
  used := by
    rw [entries]
    exact fun key slot held => (measured.used key slot held).trans tick
  stored := by
    rw [entries]
    exact fun key slot held => (measured.stored key slot held).trans tick
  usedApart := by
    rw [entries]
    exact measured.usedApart
  storedApart := by
    rw [entries]
    exact measured.storedApart
  bytes := by
    rw [bytes, heldBytes, entries]
    exact measured.bytes
  word := bytes ▸ measured.word

/-- Evicting keeps the measures. -/
theorem evict {state : CacheState} (measured : Measured state) (key : CacheKey) :
    Measured (state.evict key) := by
  cases held : state.entries.lookup key with
  | none =>
    rw [CacheState.evict, held]
    exact measured
  | some slot =>
    have kept : ∀ asked found, (state.evict key).entries.lookup asked = some found →
        state.entries.lookup asked = some found := by
      intro asked found there
      rw [lookup_evict] at there
      by_cases same : asked = key
      · rw [if_pos same] at there
        cases there
      · rwa [if_neg same] at there
    have tick : (state.evict key).tick = state.tick := by rw [CacheState.evict, held]
    have bytes : (state.evict key).bytes = state.bytes - slot.bytes := by
      rw [CacheState.evict, held]
    have left : (state.evict key).heldBytes =
        ((state.entries.erase key).entries.map fun entry => entry.2.bytes).sum := by
      rw [CacheState.evict, held, heldBytes]
    have total := held_bytes_erase state key slot held
    have before := measured.bytes
    have word := measured.word
    constructor
    · exact fun asked found there => tick ▸ measured.used asked found (kept asked found there)
    · exact fun asked found there => tick ▸ measured.stored asked found (kept asked found there)
    · exact fun asked other found found' there there' =>
        measured.usedApart asked other found found' (kept _ _ there) (kept _ _ there')
    · exact fun asked other found found' there there' =>
        measured.storedApart asked other found found' (kept _ _ there) (kept _ _ there')
    · omega
    · omega

/-- An entry put at a new tick, where nothing else stands at that tick, is apart from the
others. -/
theorem insert_apart {entries : KeyedMap CacheKey Slot} (tickOf : Slot → Nat) (now : Nat)
    (key : CacheKey) (slot : Slot) (fresh : tickOf slot = now)
    (past : ∀ asked found, asked ≠ key → entries.lookup asked = some found → tickOf found < now)
    (apart : ∀ asked other found found', entries.lookup asked = some found →
      entries.lookup other = some found' → tickOf found = tickOf found' → asked = other)
    (asked other : CacheKey) (found found' : Slot)
    (there : (entries.insert key slot).lookup asked = some found)
    (there' : (entries.insert key slot).lookup other = some found')
    (same : tickOf found = tickOf found') : asked = other := by
  rw [KeyedMap.lookup_insert_eq] at there there'
  by_cases here : asked = key
  · by_cases here' : other = key
    · rw [here, here']
    · rw [if_pos here, Option.some.injEq] at there
      rw [if_neg here'] at there'
      subst there
      have before := past other found' here' there'
      omega
  · by_cases here' : other = key
    · rw [if_neg here] at there
      rw [if_pos here', Option.some.injEq] at there'
      subst there'
      have before := past asked found here there
      omega
    · rw [if_neg here] at there
      rw [if_neg here'] at there'
      exact apart asked other found found' there there' same

/-- Touching an entry keeps the measures. -/
theorem touch {state : CacheState} (measured : Measured state) (key : CacheKey) (slot : Slot)
    (held : state.entries.lookup key = some slot) : Measured (state.touch key slot) := by
  have stands := measured.stored key slot held
  constructor
  · intro asked found there
    simp only [CacheState.touch, KeyedMap.lookup_insert_eq] at there ⊢
    by_cases same : asked = key
    · rw [if_pos same, Option.some.injEq] at there
      subst there
      exact le_rfl
    · rw [if_neg same] at there
      exact (measured.used asked found there).trans (Nat.le_succ _)
  · intro asked found there
    simp only [CacheState.touch, KeyedMap.lookup_insert_eq] at there ⊢
    by_cases same : asked = key
    · rw [if_pos same, Option.some.injEq] at there
      subst there
      exact stands.trans (Nat.le_succ _)
    · rw [if_neg same] at there
      exact (measured.stored asked found there).trans (Nat.le_succ _)
  · exact insert_apart Slot.lastUsedTick (state.tick + 1) key _ rfl
      (fun asked found _ there => Nat.lt_succ_of_le (measured.used asked found there))
      measured.usedApart
  · -- A hit leaves the tick an entry was stored at.
    intro asked other found found' there there' same
    have old : ∀ asked found, (state.touch key slot).entries.lookup asked = some found →
        ∃ before, state.entries.lookup asked = some before ∧
          found.storedTick = before.storedTick := by
      intro asked found there
      simp only [CacheState.touch, KeyedMap.lookup_insert_eq] at there
      by_cases same : asked = key
      · rw [if_pos same, Option.some.injEq] at there
        subst there
        exact ⟨slot, same ▸ held, rfl⟩
      · rw [if_neg same] at there
        exact ⟨found, there, rfl⟩
    obtain ⟨before, stood, tick⟩ := old asked found there
    obtain ⟨before', stood', tick'⟩ := old other found' there'
    exact measured.storedApart asked other before before' stood stood' (by omega)
  · have after : (state.touch key slot).heldBytes = state.heldBytes := by
      rw [held_bytes_erase state key slot held, heldBytes, CacheState.touch, held_bytes_insert]
      rfl
    rw [after]
    exact measured.bytes
  · exact measured.word

/-- Filing an entry at the next tick. -/
theorem put {state : CacheState} (measured : Measured state) (key : CacheKey) (slot : Slot)
    (used : slot.lastUsedTick = state.tick + 1) (stored : slot.storedTick = state.tick + 1) :
    Measured (({ state with tick := state.tick + 1 } : CacheState).put key slot) := by
  constructor
  · intro asked found there
    simp only [CacheState.put, KeyedMap.lookup_insert_eq] at there ⊢
    by_cases same : asked = key
    · rw [if_pos same, Option.some.injEq] at there
      subst there
      exact used.le
    · rw [if_neg same] at there
      exact (measured.used asked found there).trans (Nat.le_succ _)
  · intro asked found there
    simp only [CacheState.put, KeyedMap.lookup_insert_eq] at there ⊢
    by_cases same : asked = key
    · rw [if_pos same, Option.some.injEq] at there
      subst there
      exact stored.le
    · rw [if_neg same] at there
      exact (measured.stored asked found there).trans (Nat.le_succ _)
  · exact insert_apart Slot.lastUsedTick (state.tick + 1) key slot used
      (fun asked found _ there => Nat.lt_succ_of_le (measured.used asked found there))
      measured.usedApart
  · exact insert_apart Slot.storedTick (state.tick + 1) key slot stored
      (fun asked found _ there => Nat.lt_succ_of_le (measured.stored asked found there))
      measured.storedApart
  · have before := measured.bytes
    simp only [CacheState.put, heldBytes, held_bytes_insert, saturatingAdd]
    cases held : state.entries.lookup key with
    | none =>
      rw [heldBytes, ← KeyedMap.erase_of_lookup_none state.entries key held] at before
      dsimp only
      omega
    | some replaced =>
      rw [held_bytes_erase state key replaced held] at before
      dsimp only
      omega
  · exact min_le_right _ _

/-- Trimming keeps the measures. -/
theorem trims {state after : CacheState} (measured : Measured state) (trims : Trims state after) :
    Measured after := by
  induction trims with
  | refl => exact measured
  | trans _ _ one two => exact two (one measured)
  | evict state key => exact measured.evict key
  | touch state key slot held => exact measured.touch key slot held
  | tick state tick later => exact measured.of_same rfl later rfl
  | sweep state maxEntries =>
    rw [sweepGenerations]
    split <;> exact measured.of_same rfl le_rfl rfl
  | dropFailure state key => exact measured.of_same rfl le_rfl rfl

end Measured

end CacheState

section Runs

variable {π : Type} [CachePolicy π]

/-- Every operation keeps the measures. -/
theorem measured_perform (cache : ReprCache π) (op : CacheOp) (measured : Measured cache.state) :
    Measured (cache.perform op).1.state := by
  cases op with
  | snapshot => exact measured
  | publish => exact measured
  | recordCut thread => exact measured.of_same rfl le_rfl rfl
  | cutWith thread => exact measured.of_same rfl le_rfl rfl
  | store key target representation taken costMillis incoming =>
    rcases ReprCache.store_outcome_cases cache key target representation taken costMillis incoming
      with ⟨tick, remembers, declined, later, _, outcome⟩ |
        ⟨remembers, enforced, _, _, _, _, rfl, outcome⟩
    · simp only [ReprCache.perform, outcome]
      exact measured.of_same rfl later rfl
    · simp only [ReprCache.perform, outcome]
      have filed : Measured (cache.filed remembers key
          (ReprCache.freshSlot cache.state target representation costMillis incoming)).state :=
        measured.put key _ rfl rfl
      exact filed.trims ((ReprCache.enforce_bound_trims _).1.trans (Trims.sweep _ _))
  | storeFailure key target error until_ threads taken incoming =>
    rcases ReprCache.store_failure_cases cache key target error until_ threads taken incoming with
      ⟨declined, outcome⟩ | ⟨_, room, _, outcome⟩ <;>
        simp only [ReprCache.perform, outcome] <;> exact measured.of_same rfl le_rfl rfl
  | get key now =>
    exact measured.trims (ReprCache.serve_or_offer_spec cache key now _ _).1
  | getBody key now =>
    exact measured.trims (ReprCache.serve_or_offer_spec cache key now _ _).1
  | lookup key now buffer incoming offer =>
    exact measured.trims (ReprCache.serve_or_offer_spec cache key now _ _).1
  | getFailure key now incoming =>
    exact measured.trims (ReprCache.get_failure_spec cache key now incoming).1
  | discard key offer => exact measured.trims (ReprCache.discard_trims cache key offer).1

/-- Every run leaves the ticks apart and the byte total within what is held. -/
theorem measured_after (policy : π) (ops : List CacheOp) :
    Measured (ReprCache.after policy ops).state := by
  induction ops using List.reverseRecOn with
  | nil => exact Measured.empty
  | append_singleton ops op ih =>
    rw [ReprCache.after_concat]
    exact measured_perform _ op ih

end Runs

end Ikigai
