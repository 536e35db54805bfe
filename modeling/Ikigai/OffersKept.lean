import Ikigai.CacheMeasures
import Ikigai.KernelKept

/-!
# What becomes of an offered entry

An entry is stored at a tick of its own, and what is filed later has a later one. So an
entry that is gone stays gone: no operation brings back what was stored at its tick. A frame
that was offered an entry either still runs on the offer, or is yet to discard the entry, or
the entry is gone.
-/

namespace Ikigai

open CacheState

variable {π δ : Type}

namespace CacheState

/-- The clock has only gone on, and what is held was held before or is stored later. -/
structure Later (before after : CacheState) : Prop where
  tick : before.tick ≤ after.tick
  entries : ∀ key slot, after.entries.lookup key = some slot →
    (∃ old, before.entries.lookup key = some old ∧ old.storedTick = slot.storedTick) ∨
      before.tick < slot.storedTick

/-- The entry stored at a tick is under its key no more. -/
def Forgot (state : CacheState) (key : CacheKey) (tick : Nat) : Prop :=
  ∀ slot, state.entries.lookup key = some slot → slot.storedTick ≠ tick

namespace Later

/-- A state is no earlier than itself. -/
theorem refl (state : CacheState) : Later state state where
  tick := le_rfl
  entries := fun _ slot held => .inl ⟨slot, held, rfl⟩

/-- What is later than a later one is later. -/
theorem trans {first second third : CacheState} (one : Later first second)
    (two : Later second third) : Later first third where
  tick := one.tick.trans two.tick
  entries := by
    intro key slot held
    rcases two.entries key slot held with ⟨between, there, same⟩ | later
    · rcases one.entries key between there with ⟨old, before, stored⟩ | later
      · exact .inl ⟨old, before, stored.trans same⟩
      · exact .inr (same ▸ later)
    · exact .inr (one.tick.trans_lt later)

/-- A change of something else. -/
theorem of_same {before after : CacheState} (entries : after.entries = before.entries)
    (tick : before.tick ≤ after.tick) : Later before after where
  tick := tick
  entries := by
    rw [entries]
    exact fun _ slot held => .inl ⟨slot, held, rfl⟩

/-- A state is later once an entry is evicted. -/
theorem evict (state : CacheState) (key : CacheKey) : Later state (state.evict key) where
  tick := by
    unfold CacheState.evict
    split <;> exact le_rfl
  entries := by
    intro asked slot held
    rw [lookup_evict] at held
    split at held
    · cases held
    · exact .inl ⟨slot, held, rfl⟩

/-- A state is later once an entry is touched: only its clock moved. -/
theorem touch {state : CacheState} {key : CacheKey} {slot : Slot}
    (held : state.entries.lookup key = some slot) : Later state (state.touch key slot) where
  tick := Nat.le_succ _
  entries := by
    intro asked found there
    simp only [CacheState.touch, KeyedMap.lookup_insert_eq] at there
    split at there
    · rename_i same
      obtain rfl := Option.some.inj there
      exact .inl ⟨slot, same ▸ held, rfl⟩
    · exact .inl ⟨found, there, rfl⟩

/-- Filing an entry at the next tick. -/
theorem put (state : CacheState) (key : CacheKey) (slot : Slot)
    (stored : slot.storedTick = state.tick + 1) :
    Later state (({ state with tick := state.tick + 1 } : CacheState).put key slot) where
  tick := Nat.le_succ _
  entries := by
    intro asked found there
    simp only [CacheState.put, KeyedMap.lookup_insert_eq] at there
    split at there
    · obtain rfl := Option.some.inj there
      right
      omega
    · exact .inl ⟨found, there, rfl⟩

/-- Trimming makes a state later. -/
theorem trims {before after : CacheState} (trims : Trims before after) : Later before after := by
  induction trims with
  | refl state => exact refl state
  | trans _ _ one two => exact one.trans two
  | evict state key => exact evict state key
  | touch state key slot held => exact touch held
  | tick state tick later => exact of_same rfl later
  | sweep state maxEntries =>
    rw [sweepGenerations]
    split <;> exact of_same rfl le_rfl
  | dropFailure state key => exact of_same rfl le_rfl

/-- What was stored before and is forgotten stays so. -/
theorem forgot {before after : CacheState} (later : Later before after) {key : CacheKey}
    {tick : Nat} (past : tick ≤ before.tick) (forgot : before.Forgot key tick) :
    after.Forgot key tick := by
  intro slot held
  rcases later.entries key slot held with ⟨old, there, same⟩ | stored
  · exact same ▸ forgot old there
  · omega

end Later

end CacheState

/-- A discard forgets the offered entry. -/
theorem ReprCache.discard_forgets (cache : ReprCache π) (key : CacheKey) (offer : Offer) :
    (cache.discard key (some offer)).state.Forgot key offer.storedTick := by
  intro slot held
  simp only [ReprCache.discard] at held
  split at held
  · rw [lookup_evict, if_pos rfl] at held
    cases held
  · rename_i another
    intro same
    simp [held, same] at another

section Runs

variable [CachePolicy π]

/-- Every operation makes a state later. -/
theorem later_perform (cache : ReprCache π) (op : CacheOp) :
    Later cache.state (cache.perform op).1.state := by
  cases op with
  | snapshot => exact Later.refl _
  | publish => exact Later.refl _
  | recordCut thread => exact Later.of_same rfl le_rfl
  | cutWith thread => exact Later.of_same rfl le_rfl
  | store key target representation taken costMillis incoming =>
    rcases ReprCache.store_outcome_cases cache key target representation taken costMillis incoming
      with ⟨tick, remembers, declined, later, _, outcome⟩ |
        ⟨remembers, enforced, _, _, _, _, rfl, outcome⟩
    · simp only [ReprCache.perform, outcome]
      exact Later.of_same rfl later
    · simp only [ReprCache.perform, outcome]
      have filed : Later cache.state (cache.filed remembers key
          (ReprCache.freshSlot cache.state target representation costMillis incoming)).state :=
        Later.put cache.state key _ rfl
      exact filed.trans
        (Later.trims ((ReprCache.enforce_bound_trims _).1.trans (Trims.sweep _ _)))
  | storeFailure key target error until_ threads taken incoming =>
    rcases ReprCache.store_failure_cases cache key target error until_ threads taken incoming with
      ⟨declined, outcome⟩ | ⟨_, room, _, outcome⟩ <;>
        simp only [ReprCache.perform, outcome] <;> exact Later.of_same rfl le_rfl
  | get key now => exact Later.trims (ReprCache.serve_or_offer_spec cache key now _ _).1
  | getBody key now => exact Later.trims (ReprCache.serve_or_offer_spec cache key now _ _).1
  | lookup key now buffer incoming offer =>
    exact Later.trims (ReprCache.serve_or_offer_spec cache key now _ _).1
  | getFailure key now incoming =>
    exact Later.trims (ReprCache.get_failure_spec cache key now incoming).1
  | discard key offer => exact Later.trims (ReprCache.discard_trims cache key offer).1

/-- How far a frame is with the entry it was offered. -/
def OfferStage (cache : CacheState) (frame : Frame) (stale : Offer) : Stage → Prop
  | .running offer _ | .turning offer _ _ _ => offer = some stale
  | .closing pending _ => ∀ dispatch, frame.invoked dispatch →
      cache.Forgot dispatch.key stale.storedTick ∨ .discard dispatch.key (some stale) ∈ pending
  | .delivered => ∀ dispatch, frame.invoked dispatch → cache.Forgot dispatch.key stale.storedTick
  | .arrived | .admitted | .checked => False

/-- What a frame's offer is worth by now. -/
structure OfferKept (cache : CacheState) (frame : Frame) (stale : Offer) : Prop where
  stored : stale.storedTick ≤ cache.tick
  cacheable : frame.verb.isCacheable = true
  stage : OfferStage cache frame stale frame.stage

/-- Every frame that was offered something. -/
def OffersKept (host : Host π δ) (state : KernelState δ) : Prop :=
  ∀ id frame stale, state.frames.lookup id = some frame → frame.stale = some stale →
    OfferKept (ReprCache.after host.policy state.ops).state frame stale

variable {host : Host π δ} {care : Care} {state : KernelState δ}

/-- An offer that a frame holds stays good as the state moves on. -/
theorem OfferKept.later {before after : CacheState} {frame : Frame} {stale : Offer}
    (kept : OfferKept before frame stale) (later : Later before after) :
    OfferKept after frame stale where
  stored := kept.stored.trans later.tick
  cacheable := kept.cacheable
  stage := by
    have stage := kept.stage
    cases at_ : frame.stage with
    | closing pending issued =>
      rw [at_] at stage
      intro dispatch invoked
      exact (stage dispatch invoked).imp_left (later.forgot kept.stored)
    | delivered =>
      rw [at_] at stage
      exact fun dispatch invoked => later.forgot kept.stored (stage dispatch invoked)
    | arrived => rwa [at_] at stage
    | admitted => rwa [at_] at stage
    | checked => rwa [at_] at stage
    | running offer recorded => rwa [at_] at stage
    | turning offer awaited current doors => rwa [at_] at stage

namespace OffersKept

/-- A frame replaced by one whose offer is kept. -/
theorem set (kept : OffersKept host state) (id : Nat) {frame : Frame}
    (own : ∀ stale, frame.stale = some stale →
      OfferKept (ReprCache.after host.policy state.ops).state frame stale) :
    OffersKept host (state.set id frame) := by
  intro other found stale held offered
  rw [KernelState.set, KeyedMap.lookup_insert_eq] at held
  split at held
  · obtain rfl := Option.some.inj held
    exact own stale offered
  · exact kept other found stale held offered

/-- One more operation on the cache. -/
theorem perform (kept : OffersKept host state) (op : CacheOp) (credit : Credit) :
    OffersKept host (state.perform host.policy op credit) := by
  intro id frame stale held offered
  have later := later_perform (ReprCache.after host.policy state.ops) op
  rw [← ReprCache.after_concat] at later
  exact (kept id frame stale held offered).later later

/-- So do all offers under way. -/
theorem observe (kept : OffersKept host state) (op : CacheOp) :
    OffersKept host (state.observe op) := by
  intro id frame stale held offered
  have later := later_perform (ReprCache.after host.policy state.ops) op
  rw [← ReprCache.after_concat] at later
  exact (kept id frame stale held offered).later later

/-- A frame that moved on without its endpoint, and was offered nothing. -/
theorem set_unoffered (kept : OffersKept host state) {id : Nat} {frame after : Frame}
    (held : state.frames.lookup id = some frame) (same : after.stale = frame.stale)
    (early : frame.stage = .arrived ∨ frame.stage = .admitted ∨ frame.stage = .checked) :
    OffersKept host (state.set id after) := by
  apply kept.set id
  intro stale offered
  have stage := (kept id frame stale held (same ▸ offered)).stage
  rcases early with at_ | at_ | at_ <;> rw [at_] at stage <;> cases stage

/-- A frame that looked its key up, and may be offered what it found. -/
theorem set_looked (kept : OffersKept host state) {id : Nat} {frame : Frame} {dispatch : Dispatch}
    (held : state.frames.lookup id = some frame) (stage : frame.stage = .checked)
    (cacheable : frame.verb.isCacheable = true) {credit : Credit} {cuts : Nat} :
    OffersKept host
      ((state.observe (.lookup dispatch.key frame.now frame.buffer frame.incoming
          (!dispatch.operation))).set id
        (frame.afterLookup credit cuts
          ((ReprCache.after host.policy state.ops).lookup dispatch.key frame.now frame.buffer
            frame.incoming (!dispatch.operation)).2)) := by
  have unoffered : ∀ stale, frame.stale ≠ some stale := by
    intro stale offered
    have early := (kept id frame stale held offered).stage
    rw [stage] at early
    cases early
  apply (kept.observe _).set id
  intro stale offered
  cases found : ((ReprCache.after host.policy state.ops).lookup dispatch.key frame.now
      frame.buffer frame.incoming (!dispatch.operation)).2 with
  | miss =>
    rw [found] at offered
    exact absurd offered (unoffered stale)
  | hit answer =>
    rw [found] at offered
    cases answer <;> exact absurd offered (unoffered stale)
  | offer expired =>
    rw [found] at offered
    obtain rfl : expired = stale := Option.some.inj offered
    obtain ⟨slot, there, _, _, tick⟩ := lookup_offers _ _ _ _ _ _ expired found
    have before := (measured_after host.policy state.ops).stored dispatch.key slot there
    have later := later_perform (ReprCache.after host.policy state.ops)
      (.lookup dispatch.key frame.now frame.buffer frame.incoming (!dispatch.operation))
    rw [← ReprCache.after_concat] at later
    exact ⟨(tick.trans_le before).trans later.tick, cacheable, rfl⟩

/-- A frame whose endpoint goes on running. -/
theorem set_running (kept : OffersKept host state) {id : Nat} {frame : Frame}
    {offer : Option Offer} {recorded : Recorded} (held : state.frames.lookup id = some frame)
    (stage : frame.stage = .running offer recorded) (recorded' : Recorded) (facts : List Fact) :
    OffersKept host (state.set id (frame.note offer recorded' facts)) := by
  apply kept.set id
  intro stale offered
  have own := kept id frame stale held offered
  have runs := own.stage
  rw [stage] at runs
  exact ⟨own.stored, own.cacheable, runs⟩

/-- A frame whose endpoint is done, with the offered entry yet to be discarded. -/
theorem set_closing (kept : OffersKept host state) {id : Nat} {frame : Frame}
    {offer : Option Offer} {recorded : Recorded} (held : state.frames.lookup id = some frame)
    (stage : frame.stage = .running offer recorded) {pending : List CacheOp} (issued : Issued)
    (facts : List Fact)
    (discards : ∀ stale dispatch, offer = some stale → frame.verb.isCacheable = true →
      frame.invoked dispatch → .discard dispatch.key (some stale) ∈ pending) :
    OffersKept host (state.set id (frame.close pending issued facts)) := by
  apply kept.set id
  intro stale offered
  have own := kept id frame stale held offered
  have runs := own.stage
  rw [stage] at runs
  exact ⟨own.stored, own.cacheable,
    fun dispatch invoked => .inr (discards stale dispatch runs own.cacheable invoked)⟩

/-- A frame that handed its result over. -/
theorem set_delivered (kept : OffersKept host state) {id : Nat} {child : Frame}
    {issued : Issued} (there : state.frames.lookup id = some child)
    (done : child.stage = .closing [] issued) :
    OffersKept host (state.set id { child with stage := .delivered }) := by
  apply kept.set id
  intro stale offered
  have own := kept id child stale there offered
  have ended := own.stage
  rw [done] at ended
  refine ⟨own.stored, own.cacheable, fun other runs => ?_⟩
  exact (ended other runs).resolve_right List.not_mem_nil

/-- A description that goes on being transrepted. -/
theorem set_turning (kept : OffersKept host state) {id : Nat} {frame after : Frame}
    {offer : Option Offer} {awaited : Option Nat} {current : Option Representation}
    {doors : List Nat} (held : state.frames.lookup id = some frame)
    (runs : ∀ stale, OfferStage (ReprCache.after host.policy state.ops).state frame stale
      frame.stage → offer = some stale)
    (stage : after.stage = .turning offer awaited current doors)
    (same : after.stale = frame.stale) (verb : after.verb = frame.verb) :
    OffersKept host (state.set id after) := by
  apply kept.set id
  intro stale offered
  have own := kept id frame stale held (same ▸ offered)
  refine ⟨own.stored, verb ▸ own.cacheable, ?_⟩
  rw [stage]
  exact runs stale own.stage

/-- A description that ends, which no endpoint was to vouch for. -/
theorem set_described (kept : OffersKept host state) {id : Nat} {frame : Frame}
    {dispatch : Dispatch} (held : state.frames.lookup id = some frame)
    (describes : frame.describes dispatch) (pending : List CacheOp) (issued : Issued)
    (facts : List Fact) : OffersKept host (state.set id (frame.close pending issued facts)) := by
  apply kept.set id
  intro stale offered
  have own := kept id frame stale held offered
  exact ⟨own.stored, own.cacheable, fun _ invoked => absurd describes.2.1 invoked.2.1⟩

end OffersKept

/-- The frame beside one that hands its result over is still there. -/
theorem lookup_beside {id issuer : Nat} {child frame after : Frame}
    (there : state.frames.lookup id = some child) (held : state.frames.lookup issuer = some frame)
    (moves : frame.stage ≠ child.stage) :
    (state.set id after).frames.lookup issuer = some frame := by
  rw [KernelState.set, KeyedMap.lookup_insert_eq, if_neg, held]
  rintro rfl
  obtain rfl := Option.some.inj (there.symm.trans held)
  exact moves rfl

/-- The offered body is never "still valid" itself. -/
theorem refreshed_offer_plain {stale : Offer} {given answer : Representation}
    (body : refreshed (some stale) given = some answer) (plain : stale.stored.revalidated = false) :
    answer.revalidated = false := by
  cases stands : given.revalidated with
  | false =>
    simp only [refreshed, stands, Bool.not_false, ↓reduceIte, Option.some.injEq] at body
    exact body ▸ stands
  | true =>
    simp only [refreshed, stands, Bool.not_true, Bool.false_eq_true, ↓reduceIte] at body
    obtain ⟨stored, shared, rfl⟩ := Option.map_eq_some_iff.mp body
    exact stale.stored.share_eq_some stored shared ▸ plain

/-- What an endpoint is offered was answered by one before. -/
theorem Intact.offer_plain (intact : Intact host care state) {id : Nat} {frame : Frame}
    {dispatch : Dispatch} {stale : Offer} {recorded : Recorded}
    (held : state.frames.lookup id = some frame) (invoked : frame.invoked dispatch)
    (stage : frame.stage = .running (some stale) recorded) : stale.stored.revalidated = false := by
  have kept := intact.frame id frame held
  obtain ⟨offered, has, holds⟩ := (kept.running stage).offered stale rfl
  obtain ⟨taken, warranted, _⟩ := (kept.stands invoked.1 offered has).filed
  have asked := kept.asked dispatch invoked.1
  exact (warranted.body stale.stored holds (by rw [asked]; exact invoked.2.2)
    (by rw [asked]; exact invoked.2.1)).1

/-- The next operation of a frame that ends makes its discard, or leaves it to be made. -/
theorem OffersKept.close {before : KernelState δ} (kept : OffersKept host before) {id : Nat}
    {frame : Frame} {op : CacheOp} {rest : List CacheOp} {issued : Issued}
    (held : before.frames.lookup id = some frame)
    (stage : frame.stage = .closing (op :: rest) issued) (wrote : Option Nat) :
    OffersKept host ((before.perform host.policy op ⟨frame.began, frame.facts⟩).set id
      { frame with
        stage := .closing rest issued
        wrote := wrote }) := by
  apply (kept.perform op _).set id
  intro stale offered
  have own := kept id frame stale held offered
  have after := kept.perform op ⟨frame.began, frame.facts⟩ id frame stale held offered
  have ended := after.stage
  have first := own.stage
  rw [stage] at ended first
  refine ⟨after.stored, after.cacheable, fun dispatch invoked => ?_⟩
  rcases ended dispatch invoked with gone | member
  · exact .inl gone
  · rcases List.mem_cons.mp member with rfl | later
    · left
      rw [KernelState.perform, ReprCache.after_concat]
      exact ReprCache.discard_forgets _ dispatch.key stale
    · exact .inr later

/-- A step keeps every frame's offer. -/
theorem step_offers {before after : KernelState δ} (intact : Intact host care before)
    (kept : OffersKept host before) (step : KernelStep host care before after) :
    OffersKept host after := by
  cases step with
  | hosted op files => exact kept.observe op
  | refuseBind candidate objection now refusal refused => exact kept
  | bind id candidate objection now listened declared fresh accepted => exact kept
  | cutBound id install op rest held next => exact kept.observe op
  | arrive id parent requested verb buffer incoming now fresh issued =>
    refine (kept.observe .snapshot).set id ?_
    rintro stale ⟨⟩
  | refuse id frame error held early =>
    rcases early with stage | ⟨dispatch, offer, recorded, stage, dispatched, uninvoked⟩
    · exact kept.set_unoffered held rfl (.inl stage)
    · refine kept.set_closing held stage _ _ ?_
      intro stale other _ _ invoked
      obtain rfl : dispatch = other := Option.some.inj (dispatched.symm.trans invoked.1)
      exact absurd invoked uninvoked
  | resolve id frame dispatch held stage stands door => exact kept.set_unoffered held rfl (.inl stage)
  | enter id frame held stage verb => exact kept.set_unoffered held rfl (.inr (.inl stage))
  | skipFailures id frame dispatch held stage verb dispatched unasked =>
    exact kept.set_unoffered held rfl (.inr (.inl stage))
  | askFailure id frame dispatch held stage verb dispatched endpoint =>
    refine (kept.observe _).set_unoffered held ?_ (.inr (.inl stage))
    cases ((ReprCache.after host.policy before.ops).getFailure dispatch.key frame.now
      frame.incoming).2 <;> rfl
  | look id frame dispatch held stage dispatched =>
    have checked := (intact.frame id frame held).stage
    rw [stage] at checked
    exact kept.set_looked held stage checked.2.2
  | declare id frame dispatch offer recorded declaration held invoked stage =>
    exact kept.set_running held stage _ _
  | enterDoor id frame dispatch offer recorded version held invoked stage door =>
    exact kept.set_running held stage _ _
  | deliver id issuer child frame dispatch offer recorded issued reading there issuedBy done held
      invoked stage taken lossless =>
    have moves : frame.stage ≠ child.stage := by
      rw [stage, done]
      rintro ⟨⟩
    exact (kept.set_delivered there done).set_running (lookup_beside there held moves) stage _ _
  | answer id frame dispatch offer recorded given answer now costMillis listened held invoked stage
      entered body stored =>
    refine kept.set_closing held stage _ _ ?_
    rintro stale other rfl cacheable ⟨dispatched, _⟩
    obtain rfl : dispatch = other := Option.some.inj (invoked.1.symm.trans dispatched)
    rw [answerOps, if_pos cacheable]
    exact List.mem_append_left _ (List.mem_singleton_self _)
  | unoffered id frame dispatch offer recorded given answer listened held invoked stage entered body
      stands =>
    refine kept.set_closing held stage _ _ ?_
    rintro stale other rfl _ _
    have plain := refreshed_offer_plain body (intact.offer_plain held invoked stage)
    exact Bool.noConfusion (plain.symm.trans stands)
  | fail id frame dispatch offer recorded error now listened held invoked stage unstored =>
    refine kept.set_closing held stage _ _ ?_
    rintro stale other rfl _ ⟨dispatched, _⟩
    obtain rfl : dispatch = other := Option.some.inj (invoked.1.symm.trans dispatched)
    exact List.mem_append_right _ (List.mem_singleton_self _)
  | failStored id frame dispatch offer recorded error now listened until_ op held invoked stage
      entered stored =>
    refine (kept.perform op _).set_closing held stage _ _ ?_
    rintro stale other rfl _ ⟨dispatched, _⟩
    obtain rfl : dispatch = other := Option.some.inj (invoked.1.symm.trans dispatched)
    exact List.mem_append_right _ (List.mem_singleton_self _)
  | transrept id frame dispatch offer recorded held describes stage =>
    exact kept.set_turning held (fun stale runs => by rwa [stage] at runs) rfl rfl rfl
  | issueTurn id issuer frame offer current doors requested now fresh held stage =>
    have still : (before.arrive host.policy id (some issuer) requested .source true none
        now).frames.lookup issuer = some frame := by
      rw [KernelState.arrive, KernelState.set, KeyedMap.lookup_insert_eq, if_neg]
      · exact held
      · rintro rfl
        cases fresh.symm.trans held
    have arrived : OffersKept host
        (before.arrive host.policy id (some issuer) requested .source true none now) := by
      refine (kept.observe .snapshot).set id ?_
      rintro stale ⟨⟩
    exact arrived.set_turning still (fun stale runs => by rwa [stage] at runs) rfl rfl rfl
  | turn id issuer child frame offer current doors issued read answer there issuedBy done held stage
      came keeps =>
    have moves : frame.stage ≠ child.stage := by
      rw [stage, done]
      rintro ⟨⟩
    exact (kept.set_delivered there done).set_turning (lookup_beside there held moves)
      (fun stale runs => by rwa [stage] at runs) rfl rfl rfl
  | turnFailed id issuer child frame offer current doors issued read error there issuedBy done held
      stage came lossless keeps =>
    have moves : frame.stage ≠ child.stage := by
      rw [stage, done]
      rintro ⟨⟩
    obtain ⟨dispatch, describes⟩ := ((intact.frame issuer frame held).turning stage).describes
    exact (kept.set_delivered there done).set_described (lookup_beside there held moves) describes
      _ _ _
  | unparsed id frame offer current doors detail held stage =>
    obtain ⟨dispatch, describes⟩ := ((intact.frame id frame held).turning stage).describes
    exact kept.set_described held describes _ _ _
  | describe id frame dispatch offer doors bound rendered now costMillis held describes stage =>
    exact kept.set_described held describes _ _ _
  | operate id frame dispatch offer recorded answer now costMillis held dispatched operation stage =>
    refine kept.set_closing held stage _ _ ?_
    rintro stale other rfl _ ⟨same, _, endpoint⟩
    obtain rfl : dispatch = other := Option.some.inj (dispatched.symm.trans same)
    exact Bool.noConfusion (operation.symm.trans endpoint)
  | close id frame op rest issued held stage => exact kept.close held stage _

/-- What every run keeps of the offers. -/
theorem reached_offers {inner : δ} (reached : KernelReached host care inner state) :
    OffersKept host state := by
  induction reached with
  | refl => exact fun _ _ _ held => nomatch held
  | tail before step kept => exact step_offers (reached_intact before) kept step

end Runs

end Ikigai
