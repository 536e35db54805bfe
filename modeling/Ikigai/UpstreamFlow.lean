import Ikigai.IssuePath
import Ikigai.KernelDrive
import Ikigai.UpstreamCache

/-!
# Cacheability flows down the pipe

An endpoint's answer and a kernel operation's are met with the upstream's expiry and joined
with its threads before they are stored or returned; what is served was stored under the
very same upstream, so it was met with it too. A description's face is not: whatever fed
the request, it expires when the description says and hangs from the binding thread alone.
-/

namespace Ikigai

variable {π δ : Type}

/-- An answer lasts no longer than what fed its request, and hangs from all of its threads. -/
def Representation.Under (answer : Representation) (incoming : Provenance) : Prop :=
  answer.expiry ≤ incoming.expiry ∧ ∀ thread ∈ incoming.threads, thread ∈ answer.threads

/-- An answer is under the upstream a request has, if it has one. -/
def Representation.UnderAny (answer : Representation) (incoming : Option Provenance) : Prop :=
  ∀ upstream, incoming = some upstream → answer.Under upstream

/-- An upstream that contributes nothing limits nothing. -/
theorem Representation.under_nothing (answer : Representation) (incoming : Provenance)
    (idle : incoming.contributes = false) : answer.Under incoming := by
  simp only [Provenance.contributes, Bool.or_eq_false_iff, decide_eq_false_iff_not, not_not,
    Bool.not_eq_false', List.isEmpty_iff] at idle
  refine ⟨idle.1 ▸ Expiry.le_never _, fun thread member => ?_⟩
  have none : thread ∈ incoming.threads.items := member
  rw [idle.2] at none
  cases none

/-- An endpoint's answer is under its upstream. -/
theorem settled_under (canonical : Iri) (recorded : Recorded) (incoming : Option Provenance)
    (answer : Representation) : (settled canonical recorded incoming answer).UnderAny incoming := by
  rintro upstream rfl
  refine ⟨inf_le_right, fun thread member => ?_⟩
  simp [settled, OrderedSet.mem_items, member]

/-- A kernel operation's answer is under its upstream. -/
theorem operation_answer_under (incoming : Option Provenance) (answer : Representation) :
    (operationAnswer incoming answer).UnderAny incoming := by
  rintro upstream rfl
  refine ⟨inf_le_right, fun thread member => ?_⟩
  simp [operationAnswer, OrderedSet.mem_items, member]

/-- An operation that stores an answer stores one that lasts, under its upstream. -/
def CacheOp.Flows (op : CacheOp) : Prop :=
  ∀ key incoming answer, op.stores = some (key, incoming, .answer answer) →
    answer.UnderAny incoming ∧ answer.expiry ≠ .always

/-- An operation that stores nothing carries nothing on. -/
theorem CacheOp.flows_of_none {op : CacheOp} (stores : op.stores = none) : op.Flows := by
  intro key incoming answer same
  rw [stores] at same
  cases same

/-- One that files nothing stores nothing. -/
theorem CacheOp.stores_of_filing {op : CacheOp} (files : op.filing = none) : op.stores = none := by
  cases op <;> first | rfl | cases files

/-- An answer under its upstream, kept only when it lasts, is stored as it should be. -/
theorem CacheOp.flows_of_store (key : CacheKey) (target : Text) (answer : Representation)
    (taken : Nat) (costMillis : Option Nat) (incoming : Option Provenance)
    (lasts : answer.expiry ≠ .always) (under : answer.UnderAny incoming) :
    (CacheOp.store key target answer taken costMillis incoming).Flows := by
  rintro _ _ _ ⟨⟩
  exact ⟨under, lasts⟩

/-- Forgetting an offered entry stores nothing, so it carries nothing on. -/
theorem discard_flows (key : CacheKey) (offer : Option Offer) :
    ∀ op ∈ discardOps key offer, op.Flows := by
  intro op member
  cases offer with
  | none => cases member
  | some offer =>
    rw [List.mem_singleton.mp member]
    exact CacheOp.flows_of_none rfl

/-- A cut stores nothing. -/
theorem cut_ops_flow (listened : Bool) (thread : Thread) :
    ∀ op ∈ cutOps listened thread, op.Flows := by
  intro op member
  unfold cutOps at member
  split at member
  · rw [List.mem_singleton.mp member]
    exact CacheOp.flows_of_none rfl
  · simp only [List.mem_cons, List.not_mem_nil, or_false] at member
    rcases member with rfl | rfl <;> exact CacheOp.flows_of_none rfl

/-- A write's cut carries nothing on, whoever listens. -/
theorem write_cut_flows (verb : Verb) (listened : Bool) (canonical : Iri) :
    ∀ op ∈ writeCut verb listened canonical, op.Flows := by
  intro op member
  unfold writeCut at member
  split at member
  · exact cut_ops_flow listened canonical op member
  · cases member

/-- An answer that is stored may be kept. -/
theorem storable_lasts (now : Option Time) (answer : Representation)
    (stored : storable now answer = true) : answer.expiry ≠ .always := by
  intro volatile
  simp [storable, volatile] at stored

/-- So may an operation's answer that is stored. -/
theorem operation_storable_lasts (now : Option Time) (answer : Representation)
    (stored : operationStorable now answer = true) : answer.expiry ≠ .always := by
  intro volatile
  simp [operationStorable, volatile] at stored

/-- What is done after an answer under its upstream stores nothing else. -/
theorem answer_ops_flow (verb : Verb) (listened : Bool) (dispatch : Dispatch)
    (offer : Option Offer) (now : Option Time) (final : Representation) (taken : Nat)
    (costMillis : Option Nat) (incoming : Option Provenance) (under : final.UnderAny incoming) :
    ∀ op ∈ answerOps verb listened dispatch offer now final taken costMillis incoming,
      op.Flows := by
  intro op member
  unfold answerOps at member
  split at member
  · rcases List.mem_append.mp member with discards | stores
    · exact discard_flows _ _ op discards
    · split at stores
      · rename_i stored
        rw [List.mem_singleton.mp stores]
        exact CacheOp.flows_of_store _ _ _ _ _ _ (storable_lasts now final stored) under
      · cases stores
  · exact write_cut_flows _ _ _ op member

/-- What a frame was served, was offered and ends with is under its upstream, or was stored
under it. -/
structure FrameFlows (ops : List CacheOp) (frame : Frame) : Prop where
  early : frame.stage = .arrived → frame.served = none ∧ frame.offered = none
  cached : ∀ found, frame.served = some found ∨ frame.offered = some found →
    ∃ dispatch, frame.dispatch = some dispatch ∧
      StoredUnder ops dispatch.key frame.incoming found.held
  answered : ∀ pending issued answer, frame.stage = .closing pending issued →
    issued.result = .ok answer → answer.UnderAny frame.incoming
  pending : ∀ pending issued, frame.stage = .closing pending issued → ∀ op ∈ pending, op.Flows

namespace FrameFlows

variable {ops : List CacheOp} {frame : Frame}

/-- A frame's flows are kept when an operation is added behind what was done. -/
theorem concat (flows : FrameFlows ops frame) (op : CacheOp) : FrameFlows (ops ++ [op]) frame where
  early := flows.early
  cached := by
    intro found has
    obtain ⟨dispatch, dispatched, stored⟩ := flows.cached found has
    exact ⟨dispatch, dispatched, stored.concat op⟩
  answered := flows.answered
  pending := flows.pending

/-- A frame that goes on, with what it was served and offered. -/
theorem staged (flows : FrameFlows ops frame) (stage : Stage) (facts : List Fact)
    (late : stage ≠ .arrived) (open_ : ∀ pending issued, stage ≠ .closing pending issued) :
    FrameFlows ops { frame with stage := stage, facts := facts } where
  early := fun same => absurd same late
  cached := flows.cached
  answered := fun pending issued _ same => absurd same (open_ pending issued)
  pending := fun pending issued same => absurd same (open_ pending issued)

/-- A frame that ends. -/
theorem closed (flows : FrameFlows ops frame) (pending : List CacheOp) (issued : Issued)
    (facts : List Fact)
    (under : ∀ answer, issued.result = .ok answer → answer.UnderAny frame.incoming)
    (clean : ∀ op ∈ pending, op.Flows) : FrameFlows ops (frame.close pending issued facts) where
  early := by rintro ⟨⟩
  cached := flows.cached
  answered := by
    rintro _ _ answer ⟨⟩ same
    exact under answer same
  pending := by
    rintro _ _ ⟨⟩
    exact clean

end FrameFlows

namespace KernelState

/-- Every answer stored, every frame and every bind flows. -/
structure Flows (state : KernelState δ) : Prop where
  ops : ∀ op ∈ state.ops, op.Flows
  frames : ∀ id frame, state.frames.lookup id = some frame → FrameFlows state.ops frame
  installs : ∀ id install, state.installs.lookup id = some install → ∀ op ∈ install.pending, op.Flows

namespace Flows

variable {state : KernelState δ}

/-- The flows are kept when a frame is replaced by one that has them. -/
theorem set (flows : state.Flows) (id : Nat) (frame : Frame)
    (good : FrameFlows state.ops frame) : (state.set id frame).Flows where
  ops := flows.ops
  frames := by
    intro asked found held
    simp only [KernelState.set, KeyedMap.lookup_insert_eq] at held
    by_cases same : asked = id
    · rw [if_pos same, Option.some.injEq] at held
      exact held ▸ good
    · rw [if_neg same] at held
      exact flows.frames asked found held
  installs := flows.installs

/-- A bind under way, with operations still to make. -/
theorem bind (flows : state.Flows) (space : DynamicState δ) (id : Nat) (install : Install)
    (good : ∀ op ∈ install.pending, op.Flows) :
    ({ state with
        space := space
        installs := state.installs.insert id install } : KernelState δ).Flows where
  ops := flows.ops
  frames := flows.frames
  installs := by
    intro asked found held
    simp only [KeyedMap.lookup_insert_eq] at held
    by_cases same : asked = id
    · rw [if_pos same, Option.some.injEq] at held
      exact held ▸ good
    · rw [if_neg same] at held
      exact flows.installs asked found held

/-- The flows are kept when the operation added carries on only what it may. -/
theorem concat (flows : state.Flows) (op : CacheOp) (good : op.Flows) :
    ({ state with ops := state.ops ++ [op] } : KernelState δ).Flows where
  ops := by
    intro other member
    rcases List.mem_append.mp member with old | new
    · exact flows.ops other old
    · exact List.mem_singleton.mp new ▸ good
  frames := fun id frame held => (flows.frames id frame held).concat op
  installs := flows.installs

/-- An operation that stores nothing keeps the flows. -/
theorem observe (flows : state.Flows) (op : CacheOp) (files : op.stores = none) :
    (state.observe op).Flows :=
  flows.concat op (CacheOp.flows_of_none files)

end Flows

/-- An operation done to the cache keeps the flows, whatever its outcome is credited with. -/
theorem perform_flows [CachePolicy π] {state : KernelState δ} (flows : state.Flows) (policy : π)
    (op : CacheOp) (credit : Credit) (good : op.Flows) : (state.perform policy op credit).Flows :=
  ⟨(flows.concat op good).ops, (flows.concat op good).frames, flows.installs⟩

/-- What each description under way is asked under expires no sooner than that description
says it may be kept, and hangs from no other thread than every face. -/
def Unpiped (bounds : Nat → Expiry) (state : KernelState δ) : Prop :=
  ∀ id frame dispatch upstream, state.frames.lookup id = some frame → frame.verb = .«meta» →
    frame.dispatch = some dispatch → dispatch.operation = false →
    frame.incoming = some upstream →
    bounds id ≤ upstream.expiry ∧ ∀ thread ∈ upstream.threads, thread = bindingsThread

/-- A step that ends a description keeps it as long as that description says. -/
def DescribesWithin (bounds : Nat → Expiry) (before after : KernelState δ) : Prop :=
  ∀ id frame dispatch closed pending issued answer, before.frames.lookup id = some frame →
    frame.verb = .«meta» → frame.dispatch = some dispatch → dispatch.operation = false →
    (∃ offer, (∃ recorded, frame.stage = .running offer recorded) ∨
      ∃ awaited current doors, frame.stage = .turning offer awaited current doors) →
    after.frames.lookup id = some closed → closed.stage = .closing pending issued →
    issued.result = .ok answer → ∃ rendered, answer = describedFace (bounds id) rendered

end KernelState

/-- A face is under an upstream that says no more than it does. -/
theorem described_face_under (bound : Expiry) (rendered : Representation)
    (incoming : Option Provenance)
    (unpiped : ∀ upstream, incoming = some upstream →
      bound ≤ upstream.expiry ∧ ∀ thread ∈ upstream.threads, thread = bindingsThread) :
    (describedFace bound rendered).UnderAny incoming := by
  intro upstream same
  obtain ⟨lasting, only⟩ := unpiped upstream same
  refine ⟨inf_le_right.trans lasting, fun thread member => ?_⟩
  rw [only thread member]
  simp [describedFace]

section Runs

variable [CachePolicy π] {host : Host π δ} {care : Care}

/-- A frame that asked for a failure. -/
theorem FrameFlows.afterFailure {ops : List CacheOp} {frame : Frame} (flows : FrameFlows ops frame)
    {dispatch : Dispatch} (dispatched : frame.dispatch = some dispatch) (credit : Credit)
    (cuts : Nat) (failure : Option CachedFailure)
    (stored : ∀ found, failure = some found →
      StoredUnder ops dispatch.key frame.incoming (.failed found)) :
    FrameFlows ops (frame.afterFailure credit cuts failure) := by
  cases failure with
  | none => exact flows.staged _ _ (by simp) (by simp)
  | some found =>
    have ended := flows.closed [] ⟨.error found.error,
      ⟨.«at» found.until_, found.threads, some found.until_⟩⟩ credit.facts (by simp) (by simp)
    refine ⟨by rintro ⟨⟩, ?_, ended.answered, ended.pending⟩
    rintro other (served | offered)
    · cases served
      exact ⟨dispatch, dispatched, stored found rfl⟩
    · exact flows.cached other (.inr offered)

/-- A frame that looked, where everything stored flows. -/
theorem FrameFlows.afterLookup {ops : List CacheOp} {frame : Frame} (flows : FrameFlows ops frame)
    (clean : ∀ op ∈ ops, op.Flows) {dispatch : Dispatch}
    (dispatched : frame.dispatch = some dispatch) (credit : Credit) (cuts : Nat)
    (found : Served Answer)
    (hit : ∀ answer, found = .hit answer →
      StoredUnder ops dispatch.key frame.incoming (.answer answer.shown))
    (offer : ∀ stale, found = .offer stale →
      StoredUnder ops dispatch.key frame.incoming (.answer stale.stored)) :
    FrameFlows ops (frame.afterLookup credit cuts found) := by
  have served : ∀ answer, StoredUnder ops dispatch.key frame.incoming (.answer answer) →
      FrameFlows ops { frame.close [] ⟨.ok answer, .none⟩ credit.facts with
        served := some ⟨.answer answer, credit, cuts⟩ } := by
    intro answer stored
    have under : answer.UnderAny frame.incoming := by
      obtain ⟨op, member, stores⟩ := stored
      exact (clean op member _ _ _ stores).1
    have ended := flows.closed [] ⟨.ok answer, .none⟩ credit.facts
      (by rintro _ ⟨⟩; exact under) (by simp)
    refine ⟨by rintro ⟨⟩, ?_, ended.answered, ended.pending⟩
    rintro other (served | offered)
    · cases served
      exact ⟨dispatch, dispatched, stored⟩
    · exact flows.cached other (.inr offered)
  cases found with
  | hit answer =>
    have stored := hit answer rfl
    cases answer with
    | body answer => exact served answer stored
    | buffer answer => exact served answer stored
  | offer stale =>
    have running := flows.staged (.running (some stale) .empty) frame.facts (by simp) (by simp)
    refine ⟨by rintro ⟨⟩, ?_, running.answered, running.pending⟩
    rintro other (served | offered)
    · exact flows.cached other (.inl served)
    · cases offered
      exact ⟨dispatch, dispatched, offer stale rfl⟩
  | miss => exact flows.staged _ _ (by simp) (by simp)

/-- What a failed frame leaves to be done carries nothing on. -/
theorem failed_ops_flow (verb : Verb) (listened : Bool) (dispatch : Dispatch)
    (offer : Option Offer) :
    ∀ op ∈ writeCut verb listened dispatch.canonical ++ discardOps dispatch.key offer,
      op.Flows := by
  intro op member
  rcases List.mem_append.mp member with cut | discards
  · exact write_cut_flows _ _ _ op cut
  · exact discard_flows _ _ op discards

/-- A failure that is stored carries nothing on. -/
theorem failure_store_flows {ceiling : Nat} {frame : Frame} {dispatch : Dispatch}
    {recorded : Recorded} {error : Error} {now : Option Time} {until_ : Time} {op : CacheOp}
    (stored : failureStore ceiling frame dispatch recorded error now = some (until_, op)) :
    op.Flows := by
  unfold failureStore at stored
  split at stored
  · obtain ⟨limits, _, ⟨⟩⟩ := Option.map_eq_some_iff.mp stored
    rintro _ _ _ ⟨⟩
  · cases stored

/-- An operation's answer that is stored is under the upstream it is stored with. -/
theorem operate_ops_flow (frame : Frame) (dispatch : Dispatch) (answer : Representation)
    (now : Option Time) (costMillis : Option Nat) :
    ∀ op ∈ (if frame.verb.isCacheable &&
          operationStorable now (operationAnswer frame.incoming answer) then
        [CacheOp.store dispatch.key dispatch.canonical (operationAnswer frame.incoming answer)
          frame.taken costMillis frame.incoming]
      else []), op.Flows := by
  intro op member
  split at member
  · rename_i stored
    rw [Bool.and_eq_true] at stored
    rw [List.mem_singleton.mp member]
    exact CacheOp.flows_of_store _ _ _ _ _ _ (operation_storable_lasts now _ stored.2)
      (operation_answer_under frame.incoming answer)
  · cases member

/-- A description that is asked as its upstream allows is under it. -/
theorem description_under {bounds : Nat → Expiry} {before after : KernelState δ}
    (unpiped : before.Unpiped bounds) (within : before.DescribesWithin bounds after) {id : Nat}
    {frame closed : Frame} {dispatch : Dispatch} {offer : Option Offer} {doors : List Nat}
    {pending : List CacheOp} {issued : Issued} {face rendered : Representation}
    (held : before.frames.lookup id = some frame) (describes : frame.describes dispatch)
    (stage : (∃ recorded, frame.stage = .running offer recorded ∧ doors = []) ∨
      frame.stage = .turning offer none (some rendered) doors)
    (there : after.frames.lookup id = some closed) (ended : closed.stage = .closing pending issued)
    (answered : issued.result = .ok face) : face.UnderAny frame.incoming := by
  obtain ⟨dispatched, verb, endpoint⟩ := describes
  have describing : ∃ offer, (∃ recorded, frame.stage = .running offer recorded) ∨
      ∃ awaited current doors, frame.stage = .turning offer awaited current doors := by
    rcases stage with ⟨recorded, running, _⟩ | turning
    · exact ⟨offer, .inl ⟨recorded, running⟩⟩
    · exact ⟨offer, .inr ⟨none, some rendered, doors, turning⟩⟩
  obtain ⟨drawn, same⟩ := within id frame dispatch _ _ _ _ held verb dispatched endpoint describing
    there ended answered
  rw [same]
  exact described_face_under _ drawn frame.incoming
    fun upstream fed => unpiped id frame dispatch upstream held verb dispatched endpoint fed

/-- The next operation of a frame that ends is done, and the rest are still to be. -/
theorem KernelState.Flows.close {before : KernelState δ} (flows : before.Flows) (policy : π)
    (id : Nat) {frame : Frame} {op : CacheOp} {rest : List CacheOp} {issued : Issued}
    (held : before.frames.lookup id = some frame) (stage : frame.stage = .closing (op :: rest) issued)
    (credit : Credit) (wrote : Option Nat) :
    ((before.perform policy op credit).set id
      { frame with
        stage := .closing rest issued
        wrote := wrote }).Flows := by
  have old := flows.frames id frame held
  have good := old.pending _ _ stage
  refine (KernelState.perform_flows flows _ op _ (good op List.mem_cons_self)).set id _ ?_
  refine ⟨by simp, (old.concat op).cached, ?_, ?_⟩
  · rintro _ _ answer ⟨⟩ same
    exact old.answered _ _ answer stage same
  · rintro _ _ ⟨⟩
    exact fun other member => good other (List.mem_cons_of_mem op member)

/-- One step keeps everything flowing, where no description is asked under an upstream that
says more than it does. -/
theorem flows_step (bounds : Nat → Expiry) (before after : KernelState δ) (flows : before.Flows)
    (unpiped : before.Unpiped bounds) (within : before.DescribesWithin bounds after)
    (step : KernelStep host care before after) : after.Flows := by
  cases step with
  | hosted op files => exact flows.observe op (CacheOp.stores_of_filing files)
  | refuseBind candidate objection now refusal refused =>
    exact ⟨flows.ops, flows.frames, flows.installs⟩
  | bind id candidate objection now listened declared fresh accepted =>
    refine flows.bind _ id _ fun op member => ?_
    rcases List.mem_append.mp member with space | bindings
    · exact cut_ops_flow _ _ op space
    · exact cut_ops_flow _ _ op bindings
  | cutBound id install op rest held next =>
    have pending := flows.installs id install held
    rw [next] at pending
    exact (flows.concat op (pending op List.mem_cons_self)).bind _ id _
      fun other member => pending other (List.mem_cons_of_mem op member)
  | arrive id parent requested verb buffer incoming now fresh issued =>
    refine (flows.observe .snapshot rfl).set id _ ⟨fun _ => ⟨rfl, rfl⟩, ?_, by simp, by simp⟩
    rintro found (served | offered)
    · cases served
    · cases offered
  | refuse id frame error held early =>
    exact flows.set id _ ((flows.frames id frame held).closed _ _ _ (by simp) (by simp))
  | resolve id frame dispatch held stage stands door =>
    obtain ⟨unserved, unoffered⟩ := (flows.frames id frame held).early stage
    refine flows.set id _ ⟨by simp, ?_, by simp, by simp⟩
    rintro found (served | offered)
    · exact absurd served (by simp [unserved])
    · exact absurd offered (by simp [unoffered])
  | enter id frame held stage verb =>
    exact flows.set id _ ((flows.frames id frame held).staged _ _ (by simp) (by simp))
  | skipFailures id frame dispatch held stage verb dispatched unasked =>
    exact flows.set id _ ((flows.frames id frame held).staged _ _ (by simp) (by simp))
  | askFailure id frame dispatch held stage verb dispatched endpoint =>
    refine (flows.observe _ rfl).set id _ (((flows.frames id frame held).concat _).afterFailure
      dispatched _ _ _ fun found served => ?_)
    exact (ReprCache.failure_stored _ _ _ _ _ _ served).concat _
  | look id frame dispatch held stage dispatched =>
    refine (flows.observe _ rfl).set id _ (((flows.frames id frame held).concat _).afterLookup
      (flows.observe _ rfl).ops dispatched _ _ _ ?_ ?_)
    · exact fun answer hit => (ReprCache.lookup_hit_stored _ _ _ _ _ _ _ _ hit).concat _
    · exact fun stale offered => (ReprCache.lookup_offer_stored _ _ _ _ _ _ _ _ offered).concat _
  | declare id frame dispatch offer recorded declaration held invoked stage =>
    exact flows.set id _ ((flows.frames id frame held).staged _ _ (by simp) (by simp))
  | enterDoor id frame dispatch offer recorded version held invoked stage door =>
    exact flows.set id _ ((flows.frames id frame held).staged _ _ (by simp) (by simp))
  | deliver id issuer child frame dispatch offer recorded issued reading there issuedBy done held
      invoked stage taken kept =>
    refine (flows.set id _ ?_).set issuer _
      ((flows.frames issuer frame held).staged _ _ (by simp) (by simp))
    exact (flows.frames id child there).staged .delivered child.facts (by simp) (by simp)
  | answer id frame dispatch offer recorded given answer now costMillis listened held invoked stage
      entered body stored =>
    have under := settled_under dispatch.canonical recorded frame.incoming answer
    refine flows.set id _ ((flows.frames id frame held).closed _ _ _ ?_
      (answer_ops_flow _ _ _ _ _ _ _ _ _ under))
    rintro _ ⟨⟩
    exact under
  | unoffered id frame dispatch offer recorded given answer listened held invoked stage entered body
      stands =>
    exact flows.set id _ ((flows.frames id frame held).closed _ _ _ (by simp)
      (write_cut_flows _ _ _))
  | fail id frame dispatch offer recorded error now listened held invoked stage unstored =>
    exact flows.set id _ ((flows.frames id frame held).closed _ _ _ (by simp)
      (failed_ops_flow _ _ _ _))
  | failStored id frame dispatch offer recorded error now listened until_ op held invoked stage
      entered stored =>
    exact (KernelState.perform_flows flows _ op _ (failure_store_flows stored)).set id _
      (((flows.frames id frame held).concat op).closed _ _ _ (by simp) (failed_ops_flow _ _ _ _))
  | transrept id frame dispatch offer recorded held describes stage =>
    exact flows.set id _ ((flows.frames id frame held).staged _ _ (by simp) (by simp))
  | issueTurn id issuer frame offer current doors requested now fresh held stage =>
    refine ((flows.observe .snapshot rfl).set id _ ⟨fun _ => ⟨rfl, rfl⟩, ?_, by simp, by simp⟩).set
      issuer _ (((flows.frames issuer frame held).concat _).staged _ _ (by simp) (by simp))
    rintro found (served | offered)
    · cases served
    · cases offered
  | turn id issuer child frame offer current doors issued read answer there issuedBy done held stage
      came kept =>
    refine (flows.set id _ ?_).set issuer _
      ((flows.frames issuer frame held).staged _ _ (by simp) (by simp))
    exact (flows.frames id child there).staged .delivered child.facts (by simp) (by simp)
  | turnFailed id issuer child frame offer current doors issued read error there issuedBy done held
      stage came lossless kept =>
    refine (flows.set id _ ?_).set issuer _
      ((flows.frames issuer frame held).closed _ _ _ (by simp) (by simp))
    exact (flows.frames id child there).staged .delivered child.facts (by simp) (by simp)
  | unparsed id frame offer current doors detail held stage =>
    exact flows.set id _ ((flows.frames id frame held).closed _ _ _ (by simp) (by simp))
  | describe id frame dispatch offer doors bound rendered now costMillis held describes stage =>
    have under := description_under unpiped within held describes stage
      (by rw [KernelState.set, AList.lookup_insert]) rfl rfl
    refine flows.set id _ ((flows.frames id frame held).closed _ _ _ ?_
      (answer_ops_flow _ _ _ _ _ _ _ _ _ under))
    rintro _ ⟨⟩
    exact under
  | operate id frame dispatch offer recorded answer now costMillis held dispatched operation stage =>
    refine flows.set id _ ((flows.frames id frame held).closed _ _ _ ?_
      (operate_ops_flow _ _ _ _ _))
    rintro _ ⟨⟩
    exact operation_answer_under frame.incoming answer
  | close id frame op rest issued held stage => exact flows.close _ id held stage _ _

/-- A step from a state where every description is asked as its upstream allows. -/
def UnpipedStep (host : Host π δ) (bounds : Nat → Expiry) (before after : KernelState δ) : Prop :=
  KernelStep host .nothing before after ∧ before.Unpiped bounds ∧ before.DescribesWithin bounds after

/-- Everything flows in every run whose descriptions are asked as their upstreams allow. -/
theorem flows_run (host : Host π δ) (bounds : Nat → Expiry) (inner : δ) (state : KernelState δ)
    (reached : Relation.ReflTransGen (UnpipedStep host bounds) (.initial inner) state) :
    state.Flows := by
  apply Transitions.kept_by_run (UnpipedStep host bounds) KernelState.Flows _ _ _ reached
  · constructor <;> intro _ other
    · cases other
    · intro held
      cases held
    · intro held
      cases held
  · intro before after flows step
    exact flows_step bounds before after flows step.2.1 step.2.2 step.1

end Runs

/-- Cacheability flows down the pipe: what is answered under an upstream is under it, nothing
is stored under one that is always stale, what is served was stored under the same one, and
a request with an upstream that contributes nothing arrives as one without. -/
structure KernelState.FlowsDown [CachePolicy π] (host : Host π δ) (state : KernelState δ) :
    Prop where
  answered : ∀ id frame pending issued answer, state.frames.lookup id = some frame →
    frame.stage = .closing pending issued → issued.result = .ok answer →
    ∀ upstream, frame.incoming = (some upstream).filter Provenance.contributes →
      answer.Under upstream
  stored : ∀ op ∈ state.ops, ∀ key upstream answer,
    op.stores = some (key, some upstream, .answer answer) → upstream.expiry ≠ .always
  served : ∀ id frame found, state.frames.lookup id = some frame →
    (frame.served = some found ∨ frame.offered = some found) →
      ∃ dispatch, frame.dispatch = some dispatch ∧
        StoredUnder state.ops dispatch.key frame.incoming found.held
  idle : ∀ id parent requested verb buffer upstream now, upstream.contributes = false →
    state.arrive host.policy id parent requested verb buffer (some upstream) now =
      state.arrive host.policy id parent requested verb buffer none now

/-- What is under the upstream a request was left with is under the one it came with. -/
theorem Representation.under_given {answer : Representation} {incoming : Option Provenance}
    (under : answer.UnderAny incoming) (upstream : Provenance)
    (given : incoming = (some upstream).filter Provenance.contributes) : answer.Under upstream := by
  cases contributes : upstream.contributes with
  | true => exact under upstream (by simp [given, Option.filter, contributes])
  | false => exact answer.under_nothing upstream contributes

/-- Cacheability flows down the pipe in every run whose descriptions are asked under upstreams
that say no more than they do, and an upstream that contributes nothing changes nothing. -/
theorem cacheability_flows {σ υ : Type} [Blake3] [IriSyntax] [RequestHash] [Space σ]
    [CachePolicy π] (host : Host π δ) (bounds : Nat → Expiry) (inner : δ) (state : KernelState δ)
    (reached : Relation.ReflTransGen (UnpipedStep host bounds) (.initial inner) state) :
    state.FlowsDown host ∧
      ∀ (kernel : Kernel σ) (run : Runner σ π υ) (call : Call σ) (issued : IssueState π υ)
        (upstream : Provenance), upstream.contributes = false →
          kernel.issue run { call with incoming := some upstream } issued =
            kernel.issue run { call with incoming := none } issued := by
  have flows := flows_run host bounds inner state reached
  refine ⟨⟨?_, ?_, ?_, ?_⟩, ?_⟩
  · intro id frame pending issued answer held closing result upstream given
    exact Representation.under_given
      ((flows.frames id frame held).answered pending issued answer closing result) upstream given
  · intro op member key upstream answer stores always
    obtain ⟨under, lasts⟩ := flows.ops op member key (some upstream) answer stores
    have least : answer.expiry ≤ .always := always ▸ (under upstream rfl).1
    exact lasts (le_antisymm least (Expiry.always_le _))
  · intro id frame found held has
    exact (flows.frames id frame held).cached found has
  · intro id parent requested verb buffer upstream now idle
    simp only [KernelState.arrive, Option.filter, idle]
    rfl
  · intro kernel run call issued upstream idle
    simp only [Kernel.issue, Option.filter, idle]
    rfl

namespace PipedDescriptionExample

def page : Iri := "urn:page".toList

def key (number : UInt8) : CacheKey := ⟨⟨Vector.replicate 32 number⟩, 0, 0⟩

def host : Host ShippedPolicy Unit where
  policy := .simple (.lru ⟨16, 1024⟩)
  ceiling := 60000
  asked := fun asked =>
    if asked = key 1 then ⟨.«meta», page, false⟩ else ⟨.source, page, false⟩
  spaceThread := "urn:iki:space:dynamic:demo".toList
  binder := ⟨fun _ => .ok (), fun _ => [], fun _ => [], fun _ => .ok (), fun _ => none⟩

def text (body : Body) : Representation :=
  ⟨⟨"text/plain".toList, []⟩, body, .never, OrderedSet.empty, none, false⟩

def volatile : Provenance := ⟨.always, .empty⟩

/-- The page is described under the upstream. -/
def described : KernelState Unit :=
  driven host false false ()
    [.arrive 0 none page .«meta» true (some volatile) none, .admitted 0 page (key 1) false false,
      .skipFailures 0, .look 0, .describe 0 .never (text (.bytes [])) none, .close 0]

/-- The frame is piped from what is always stale, and closes with an answer that never is. -/
def outlasts (frame : Frame) : Bool :=
  decide (frame.incoming = some volatile) &&
    match frame.stage with
    | .closing [] ⟨.ok answer, _⟩ => decide (answer.expiry = .never)
    | _ => false

/-- The face of a page is cached under an upstream that is always stale, and lasts. -/
theorem face_outlasts_upstream :
    KernelReached host .nothing () described ∧ ¬described.FlowsDown host := by
  refine ⟨driven_reached_any host () _, fun down => ?_⟩
  have shown : (described.frames.lookup 0).any outlasts = true := by decide
  obtain ⟨frame, held, facts⟩ := (Option.any_eq_true _ _).mp shown
  simp only [outlasts, Bool.and_eq_true, decide_eq_true_eq] at facts
  obtain ⟨incoming, ending⟩ := facts
  split at ending
  · rename_i answer carried closing
    have under := (down.answered 0 frame [] _ answer held closing rfl volatile
      (by rw [incoming]; rfl)).1
    rw [of_decide_eq_true ending] at under
    cases le_antisymm under (Expiry.always_le _)
  · cases ending

/-- Whether a state has no description under way. -/
def undescribed (state : KernelState Unit) : Bool :=
  state.frames.entries.all fun entry => decide (entry.2.verb ≠ .«meta»)

/-- Where nothing is described, nothing is piped into a description. -/
theorem unpiped_of_undescribed (before after : KernelState Unit) (bounds : Nat → Expiry)
    (none : undescribed before = true) :
    before.Unpiped bounds ∧ before.DescribesWithin bounds after := by
  have plain : ∀ id frame, before.frames.lookup id = some frame → frame.verb ≠ .«meta» := by
    intro id frame held
    have here := List.all_eq_true.mp none _ ((KeyedMap.mem_entries_iff _ _ _).mpr held)
    exact of_decide_eq_true here
  constructor
  · intro id frame _ _ held verb
    exact absurd verb (plain id frame held)
  · intro id frame _ _ _ _ _ held verb
    exact absurd verb (plain id frame held)

/-- Whether every state a list of moves goes through has no description under way. -/
def undescribedAll (state : KernelState Unit) : List (Move Unit) → Bool
  | [] => true
  | move :: rest =>
    undescribed state && (drive host false false state move).all fun after => undescribedAll after rest

/-- So a run in which nothing is described is one that pipes nothing into descriptions. -/
theorem undescribed_run (moves : List (Move Unit)) (before after : KernelState Unit)
    (bounds : Nat → Expiry) (quiet : undescribedAll before moves = true)
    (driven : driveAll host false false before moves = some after) :
    Relation.ReflTransGen (UnpipedStep host bounds) before after := by
  induction moves generalizing before with
  | nil =>
    cases driven
    exact .refl
  | cons move rest ih =>
    obtain ⟨between, first, further⟩ := Option.bind_eq_some_iff.mp driven
    simp only [undescribedAll, first, Option.all_some, Bool.and_eq_true] at quiet
    have step := drive_steps move first
    exact .head ⟨by simpa [Care.nothing] using step, unpiped_of_undescribed _ _ bounds quiet.1⟩
      (ih between quiet.2 further)

def fresh : Provenance := ⟨.«at» 500, ⟨["urn:up".toList], by decide⟩⟩

/-- The page is read under an upstream, and read again. -/
def reads : List (Move Unit) :=
  [.arrive 0 none page .source true (some fresh) (some 0), .admitted 0 page (key 2) false false,
    .skipFailures 0, .look 0, .answer 0 (text (.bytes [45])) (some 0) false, .close 0,
    .arrive 1 none page .source true (some fresh) (some 9), .admitted 1 page (key 2) false false,
    .skipFailures 1, .look 1]

def served : KernelState Unit := driven host false false () reads

/-- The example's served answer is reached by such a run. -/
theorem served_is_undescribed (bounds : Nat → Expiry) :
    Relation.ReflTransGen (UnpipedStep host bounds) (.initial ()) served := by
  have through : (driveAll host false false (.initial ()) reads).isSome = true := by decide
  obtain ⟨after, run⟩ := Option.isSome_iff_exists.mp through
  have same : served = after := by rw [served, driven, run, Option.getD_some]
  rw [same]
  exact undescribed_run reads _ _ bounds (by decide) run

local instance anyDigest : Blake3 := ⟨fun bytes => bytes.length.toUInt64⟩

local instance anyIri : IriSyntax := ⟨fun _ => true, fun _ => []⟩

local instance oneHash : RequestHash := ⟨fun _ => ⟨Vector.replicate 32 0⟩, fun _ => 0⟩

/-- The page is served the second time, under the upstream it was stored under. -/
theorem read_page_flows :
    served.FlowsDown host ∧ (served.frames.lookup 1).any (fun frame => frame.served.isSome) = true :=
  ⟨(cacheability_flows (σ := Arrangement Empty) (υ := Unit) host (fun _ => .never) () served
    (served_is_undescribed _)).1, by decide⟩

end PipedDescriptionExample

end Ikigai
