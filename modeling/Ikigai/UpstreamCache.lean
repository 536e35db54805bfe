import Ikigai.ServedFacts

/-!
# Stored under an upstream, served under it

An entry and a failure are filed with the upstream of the request that stored them, and a
lookup compares it. No operation changes it, so what is served or offered under an upstream
was stored under that very one, by an operation of the run.
-/

namespace Ikigai

open CacheState

variable {π : Type}

/-- What an operation stores: under which key and which upstream, and what. -/
def CacheOp.stores : CacheOp → Option (CacheKey × Option Provenance × Held)
  | .store key _ representation _ _ incoming => some (key, incoming, .answer representation)
  | .storeFailure key _ error until_ threads _ incoming =>
    some (key, incoming, .failed ⟨error, until_, threads⟩)
  | _ => none

/-- A run of operations stored something under a key and an upstream. -/
def StoredUnder (ops : List CacheOp) (key : CacheKey) (incoming : Option Provenance)
    (held : Held) : Prop :=
  ∃ op ∈ ops, op.stores = some (key, incoming, held)

theorem StoredUnder.concat {ops : List CacheOp} {key : CacheKey} {incoming : Option Provenance}
    {held : Held} (stored : StoredUnder ops key incoming held) (op : CacheOp) :
    StoredUnder (ops ++ [op]) key incoming held := by
  obtain ⟨earlier, member, same⟩ := stored
  exact ⟨earlier, List.mem_append_left _ member, same⟩

theorem StoredUnder.last {ops : List CacheOp} {key : CacheKey} {incoming : Option Provenance}
    {held : Held} {op : CacheOp} (stores : op.stores = some (key, incoming, held)) :
    StoredUnder (ops ++ [op]) key incoming held :=
  ⟨op, List.mem_append_right _ (List.mem_singleton_self op), stores⟩

/-- Whatever a state holds was stored under the upstream it is filed with. -/
structure Attributed (ops : List CacheOp) (state : CacheState) : Prop where
  entry : ∀ key slot, state.entries.lookup key = some slot →
    StoredUnder ops key slot.incoming (.answer slot.representation)
  failure : ∀ key slot, state.failures.lookup key = some slot →
    StoredUnder ops key slot.incoming (.failed ⟨slot.error, slot.until_, slot.threads⟩)

/-- What is left of an entry keeps its upstream. -/
theorem CacheState.Trims.upstream {before after : CacheState} (trims : Trims before after)
    (key : CacheKey) (slot : Slot) (held : after.entries.lookup key = some slot) :
    ∃ old, before.entries.lookup key = some old ∧ slot.incoming = old.incoming ∧
      slot.representation = old.representation := by
  induction trims generalizing slot with
  | refl state => exact ⟨slot, held, rfl, rfl⟩
  | trans _ _ one two =>
    obtain ⟨middle, there, upstream, shown⟩ := two slot held
    obtain ⟨old, first, upstream', shown'⟩ := one middle there
    exact ⟨old, first, upstream.trans upstream', shown.trans shown'⟩
  | evict state evicted =>
    rw [lookup_evict] at held
    split at held
    · cases held
    · exact ⟨slot, held, rfl, rfl⟩
  | touch state touched old there =>
    simp only [CacheState.touch, KeyedMap.lookup_insert_eq] at held
    by_cases same : key = touched
    · rw [if_pos same] at held
      cases held
      exact ⟨old, same ▸ there, rfl, rfl⟩
    · rw [if_neg same] at held
      exact ⟨slot, held, rfl, rfl⟩
  | tick state tick later => exact ⟨slot, held, rfl, rfl⟩
  | sweep state maxEntries =>
    refine ⟨slot, ?_, rfl, rfl⟩
    rw [sweepGenerations] at held
    split at held <;> exact held
  | dropFailure state dropped => exact ⟨slot, held, rfl, rfl⟩

namespace Attributed

variable {ops : List CacheOp}

theorem concat {state : CacheState} (attributed : Attributed ops state) (op : CacheOp) :
    Attributed (ops ++ [op]) state where
  entry := fun key slot held => (attributed.entry key slot held).concat op
  failure := fun key slot held => (attributed.failure key slot held).concat op

/-- Removing things keeps a state attributed. -/
theorem trims {before after : CacheState} (attributed : Attributed ops before)
    (trims : Trims before after) : Attributed ops after where
  entry := by
    intro key slot held
    obtain ⟨old, there, upstream, shown⟩ := trims.upstream key slot held
    rw [upstream, shown]
    exact attributed.entry key old there
  failure := fun key slot held => attributed.failure key slot (trims.shrinks.failure key slot held)

end Attributed

section Runs

variable [CachePolicy π]

/-- One operation keeps what is held attributed. -/
theorem attributed_perform (policy : π) (ops : List CacheOp) (op : CacheOp)
    (attributed : Attributed ops (ReprCache.after policy ops).state) :
    Attributed (ops ++ [op]) ((ReprCache.after policy ops).perform op).1.state := by
  have still := attributed.concat op
  cases op with
  | snapshot => exact still
  | publish => exact still
  | recordCut thread => exact ⟨still.entry, still.failure⟩
  | cutWith thread => exact ⟨still.entry, still.failure⟩
  | store key target representation taken costMillis incoming =>
    rcases ReprCache.store_outcome_cases (ReprCache.after policy ops) key target representation
      taken costMillis incoming with ⟨tick, remembers, declined, later, _, outcome⟩ |
        ⟨remembers, enforced, _, unraced, _, _, rfl, outcome⟩
    · simp only [ReprCache.perform, outcome]
      exact still.trims (Trims.tick _ tick later)
    · have filed : Attributed (ops ++ [.store key target representation taken costMillis incoming])
          ((ReprCache.after policy ops).filed remembers key
            (ReprCache.freshSlot (ReprCache.after policy ops).state target representation costMillis
              incoming)).state := by
        constructor
        · intro asked slot held
          simp only [ReprCache.filed, CacheState.put, KeyedMap.lookup_insert_eq] at held
          by_cases same : asked = key
          · rw [if_pos same, Option.some.injEq] at held
            subst held
            exact same ▸ StoredUnder.last rfl
          · rw [if_neg same] at held
            exact still.entry asked slot held
        · intro asked slot held
          simp only [ReprCache.filed, CacheState.put, KeyedMap.lookup_erase_eq] at held
          by_cases same : asked = key
          · rw [if_pos same] at held
            cases held
          · rw [if_neg same] at held
            exact still.failure asked slot held
      have bounded := ReprCache.enforce_bound_trims ((ReprCache.after policy ops).filed remembers key
        (ReprCache.freshSlot (ReprCache.after policy ops).state target representation costMillis
          incoming))
      simp only [ReprCache.perform, outcome]
      exact filed.trims (bounded.1.trans (Trims.sweep _ _))
  | storeFailure key target error until_ threads taken incoming =>
    rcases ReprCache.store_failure_cases (ReprCache.after policy ops) key target error until_ threads
      taken incoming with ⟨declined, outcome⟩ | ⟨unraced, room, kept, outcome⟩
    · simp only [ReprCache.perform, outcome]
      exact still
    · simp only [ReprCache.perform, outcome]
      refine ⟨still.entry, ?_⟩
      intro asked slot held
      rw [KeyedMap.lookup_insert_eq] at held
      by_cases same : asked = key
      · rw [if_pos same, Option.some.injEq] at held
        subst held
        exact same ▸ StoredUnder.last rfl
      · rw [if_neg same] at held
        exact still.failure asked slot (kept asked slot held)
  | get key now => exact still.trims (ReprCache.serve_or_offer_spec _ key now _ _).1
  | getBody key now => exact still.trims (ReprCache.serve_or_offer_spec _ key now _ _).1
  | lookup key now buffer incoming offer =>
    exact still.trims (ReprCache.serve_or_offer_spec _ key now _ _).1
  | getFailure key now incoming => exact still.trims (ReprCache.get_failure_spec _ key now incoming).1
  | discard key offer => exact still.trims (ReprCache.discard_trims _ key offer).1

/-- What the cache holds is attributed after every run. -/
theorem attributed_after (policy : π) (ops : List CacheOp) :
    Attributed ops (ReprCache.after policy ops).state := by
  induction ops using List.reverseRecOn with
  | nil =>
    constructor
    · intro key slot held
      cases held
    · intro key slot held
      cases held
  | append_singleton ops op ih =>
    rw [ReprCache.after_concat]
    exact attributed_perform policy ops op ih

end Runs

/-- The representation of an answer, whichever body it comes with. -/
def Answer.shown : Answer → Representation
  | .body answer | .buffer answer => answer

namespace ReprCache

/-- An answer shown is the entry's own, filed under the upstream asked for. -/
theorem answer_face_upstream (buffer : Bool) (incoming : Option Provenance) (entry : Slot)
    (answer : Answer) (face : answerFace buffer incoming entry = some answer) :
    entry.incoming = incoming ∧ answer.shown = entry.representation := by
  have upstream : entry.incoming = incoming := by
    by_contra other
    rw [answerFace, if_pos other] at face
    cases face
  refine ⟨upstream, ?_⟩
  have shown := answer_face_shows buffer incoming entry answer face
  cases answer <;> simpa [CacheAnswer.serves, Answer.shown] using shown

variable [CachePolicy π]

/-- What a lookup answers was stored under its key and its upstream. -/
theorem lookup_hit_stored (policy : π) (ops : List CacheOp) (key : CacheKey) (now : Option Time)
    (buffer : Bool) (incoming : Option Provenance) (offer : Bool) (answer : Answer)
    (hit : ((after policy ops).lookup key now buffer incoming offer).2 = .hit answer) :
    StoredUnder ops key incoming (.answer answer.shown) := by
  obtain ⟨slot, there, _, face⟩ := (serve_or_offer_spec _ key now _ _).2.2 answer hit
  obtain ⟨upstream, shown⟩ := answer_face_upstream buffer incoming slot answer face
  rw [← upstream, shown]
  exact (attributed_after policy ops).entry key slot there

/-- What a lookup offers was stored under its key and its upstream. -/
theorem lookup_offer_stored (policy : π) (ops : List CacheOp) (key : CacheKey)
    (now : Option Time) (buffer : Bool) (incoming : Option Provenance) (offer : Bool)
    (stale : Offer)
    (offered : ((after policy ops).lookup key now buffer incoming offer).2 = .offer stale) :
    StoredUnder ops key incoming (.answer stale.stored) := by
  obtain ⟨slot, there, expired, stored, _⟩ :=
    lookup_offers _ key now buffer incoming offer stale offered
  have face : offerFace offer incoming slot = some stale := by
    unfold lookup serveOrOffer at offered
    simp only [there, expired] at offered
    split at offered
    · split at offered
      · cases offered
      · rename_i found
        cases offered
        exact found
    · cases offered
  have upstream : slot.incoming = incoming := by
    by_contra other
    rw [offerFace, decide_eq_true other, Bool.or_true, if_pos rfl] at face
    cases face
  rw [← upstream, stored]
  exact (attributed_after policy ops).entry key slot there

/-- A failure that is served was stored under its key and its upstream. -/
theorem failure_stored (policy : π) (ops : List CacheOp) (key : CacheKey) (now : Option Time)
    (incoming : Option Provenance) (failure : CachedFailure)
    (served : ((after policy ops).getFailure key now incoming).2 = some failure) :
    StoredUnder ops key incoming (.failed failure) := by
  obtain ⟨slot, there, live, same⟩ := (get_failure_spec _ key now incoming).2.2 failure served
  have upstream : slot.incoming = incoming := by
    by_contra other
    simp only [getFailure, there, live, if_neg other] at served
    cases served
  rw [← upstream, same]
  exact (attributed_after policy ops).failure key slot there

end ReprCache

end Ikigai
