import Ikigai.AnswersOwe

/-!
# Frames on the move

What a frame becomes when something comes out of the cache, while its endpoint runs and
when it ends, is kept as it was.
-/

namespace Ikigai

variable {π δ : Type} {host : Host π δ} {care : Care} {state : KernelState δ}

theorem HasFound.of_same {frame other : Frame} {good : Option Time → Expiry → Prop}
    {found : FromCache} (has : HasFound host care state frame good found)
    (dispatch : other.dispatch = frame.dispatch) (now : other.now = frame.now)
    (taken : other.taken = frame.taken) : HasFound host care state other good found where
  stands := dispatch ▸ has.stands
  good := now ▸ has.good
  after := taken ▸ has.after
  dated := has.dated

/-- A fact that comes with a sub-request. -/
theorem Dated.passedOn {fact : Fact} (dated : Dated host care state fact) :
    Dated host care state fact.passedOn :=
  ⟨dated.since, dated.depth, dated.reads, dated.hangs, dated.opened, dated.behind⟩

/-- A fact that comes with a step of a description's transreption. -/
theorem Dated.turnedOn {fact : Fact} (dated : Dated host care state fact) :
    Dated host care state fact.turnedOn :=
  ⟨dated.since, dated.depth, dated.reads, dated.hangs, dated.opened, dated.behind⟩

variable [CachePolicy π]

namespace FrameKept

variable {frame : Frame}

/-- A frame that moves to another stage with other facts. -/
theorem moved (kept : FrameKept host care state frame) (stage : Stage) (facts : List Fact)
    (dated : ∀ fact ∈ facts, Dated host care state fact)
    (quiet : ∀ fact ∈ facts, Counts care fact → Quiet (cutsOf state.ops) frame.taken fact)
    (stageKept : StageKept host care state
      { frame with stage := stage, facts := facts } stage) :
    FrameKept host care state { frame with stage := stage, facts := facts } where
  taken := kept.taken
  began := kept.began
  counted := kept.counted
  dated := dated
  quiet := quiet
  asked := kept.asked
  door := kept.door
  offered := fun offered held => (kept.offered offered held).of_same rfl rfl rfl
  served := fun served held => (kept.served served held).of_same rfl rfl rfl
  upstream := kept.upstream
  wrote := kept.wrote
  stage := stageKept

/-- A frame that moves to another stage with its facts. -/
theorem restaged (kept : FrameKept host care state frame) (stage : Stage)
    (stageKept : StageKept host care state { frame with stage := stage } stage) :
    FrameKept host care state { frame with stage := stage } :=
  kept.moved stage frame.facts kept.dated kept.quiet stageKept

/-- The cuts recorded when it took its snapshot are recorded still. -/
theorem within (kept : FrameKept host care state frame) : frame.taken ≤ state.cuts :=
  kept.began.trans kept.counted

/-- A fact a frame adds itself is dated and quiet. -/
theorem own (kept : FrameKept host care state frame) {fact : Fact}
    (own : Own frame.taken fact) :
    Dated host care state fact ∧ Quiet (cutsOf state.ops) frame.taken fact :=
  ⟨Dated.of_own own kept.within, own.since ▸ quiet_since _ fact⟩

/-- A fact about the door it was found behind. -/
theorem doorDated (kept : FrameKept host care state frame) {dispatch : Dispatch}
    (dispatched : frame.dispatch = some dispatch) {version : Nat}
    (door : dispatch.door = some version) {thread : Thread}
    (cut : thread = host.spaceThread ∨ thread = bindingsThread) :
    Dated host care state (Fact.on (.door version) thread frame.taken) where
  since := kept.within
  depth := nofun
  reads := nofun
  hangs := by
    intro _ _
    rcases cut with rfl | rfl
    · exact .inl (by simp [Fact.on])
    · exact .inr (by simp [Fact.on])
  opened := by
    rintro _ ⟨⟩
    exact kept.door dispatch version dispatched door
  behind := nofun

/-- A fact about a door behind a description, which the bindings cut of any later version is
still to revoke. -/
theorem behindDated (kept : FrameKept host care state frame) {version : Nat}
    (closes : care.collects → Closes state version frame.taken) :
    Dated host care state (Fact.on (.behind version) bindingsThread frame.taken) where
  since := kept.within
  depth := nofun
  reads := nofun
  hangs := nofun
  opened := nofun
  behind := by
    rintro _ ⟨⟩
    exact ⟨by simp [Fact.on], closes⟩

end FrameKept

/-- A frame stays under its issuer. -/
theorem Intact.replace (intact : Intact host care state) {id : Nat} {old frame : Frame}
    (held : state.frames.lookup id = some old) (parent : frame.parent = old.parent)
    (taken : frame.taken = old.taken) (kept : FrameKept host care state frame) :
    Intact host care (state.set id frame) := by
  refine intact.set kept ?_ ?_
  · intro issuer issued
    rw [taken]
    exact intact.issuer id old issuer held (parent ▸ issued)
  · intro other there
    rw [held, Option.some.injEq] at there
    exact there ▸ taken

/-- A frame closed with something out of the cache, whose facts it takes over. -/
theorem FrameKept.hit {frame : Frame} {dispatch : Dispatch} {found : FromCache}
    {issued : Issued} (kept : FrameKept host care state frame)
    (dispatched : frame.dispatch = some dispatch)
    (stands : Stands host care (cutsOf state.ops) dispatch.key found)
    (good : GoodAt frame.now found.held.expiry)
    (dated : ∀ fact ∈ found.credit.facts, Dated host care state fact)
    (now : frame.taken ≤ found.cuts) (cacheable : frame.verb.isCacheable = true)
    (owes : ∀ fact, Owed found.held.expiry found.held.threads fact → issued.Owes fact)
    (answers : ∀ answer, issued.result = .ok answer → found.held = .answer answer) :
    FrameKept host care state
      { frame.close [] issued found.credit.facts with served := some found } where
  taken := kept.taken
  began := kept.began
  counted := kept.counted
  dated := dated
  quiet := by
    intro fact member counts thread hangs cut
    apply stands.unrevoked member counts thread hangs
    have part : (cutsOf state.ops).take frame.taken <+: (cutsOf state.ops).take found.cuts :=
      List.take_prefix_take_left now
    exact (part.drop fact.since).subset cut
  asked := kept.asked
  door := kept.door
  offered := fun offered held => (kept.offered offered held).of_same rfl rfl rfl
  served := by
    rintro _ ⟨⟩
    exact ⟨⟨dispatch, dispatched, stands⟩, good, now, dated⟩
  upstream := kept.upstream
  wrote := kept.wrote
  stage := by
    have owed : ∀ fact ∈ found.credit.facts, Counts care fact →
        Owed found.held.expiry found.held.threads fact := by
      intro fact member counts
      obtain ⟨sooner, threads⟩ := stands.owes member counts
      exact ⟨sooner, fun _ volatile => absurd volatile (stands.lasting member counts),
        .inr threads⟩
    refine ⟨fun _ fact member counts => owes fact (owed fact member counts), ?_, ?_, ?_, ?_⟩
    · intro answer came fact member counts
      have standing := owed fact member counts
      rw [answers answer came] at standing
      exact standing
    · intro op member
      cases member
    · intro op member
      cases member
    · rintro canonical ⟨mutating, _⟩
      have disjoint : frame.verb.isMutating = false := by
        rw [Verb.is_mutating_eq, cacheable]
        rfl
      exact absurd (disjoint.symm.trans mutating) Bool.false_ne_true

/-- A live entry stands. -/
theorem Intact.entry (intact : Intact host care state) {key : CacheKey} {slot : Slot}
    (there : (ReprCache.after host.policy state.ops).state.entries.lookup key = some slot)
    (current : (ReprCache.after host.policy state.ops).state.edgesCurrent slot.edges = true) :
    Stands host care (cutsOf state.ops) key
      ⟨.answer slot.representation, state.credits key false, state.cuts⟩ where
  cuts := le_rfl
  filed := by
    obtain ⟨taken, last, guarded⟩ := (sound_after host.policy state.ops).1.entry key slot there
    refine ⟨taken, intact.filed _ last, ?_⟩
    rw [KernelState.cuts, List.take_length]
    exact guarded.current current

theorem Intact.failure (intact : Intact host care state) {key : CacheKey} {slot : FailedSlot}
    (there : (ReprCache.after host.policy state.ops).state.failures.lookup key = some slot)
    (current : (ReprCache.after host.policy state.ops).state.edgesCurrent slot.edges = true) :
    Stands host care (cutsOf state.ops) key
      ⟨.failed ⟨slot.error, slot.until_, slot.threads⟩, state.credits key true, state.cuts⟩ where
  cuts := le_rfl
  filed := by
    obtain ⟨taken, last, guarded⟩ := (sound_after host.policy state.ops).1.failure key slot there
    refine ⟨taken, intact.filed _ last, ?_⟩
    rw [KernelState.cuts, List.take_length]
    exact guarded.current current

/-- A frame that asked the failures. -/
theorem Intact.afterFailure (intact : Intact host care state) {id : Nat} {frame : Frame}
    {dispatch : Dispatch} (held : state.frames.lookup id = some frame)
    (stage : frame.stage = .admitted) (cacheable : frame.verb.isCacheable = true)
    (dispatched : frame.dispatch = some dispatch) :
    FrameKept host care state
      (frame.afterFailure (state.credits dispatch.key true) state.cuts
        ((ReprCache.after host.policy state.ops).getFailure dispatch.key frame.now
          frame.incoming).2) := by
  have kept := intact.frame id frame held
  have stageKept := kept.stage
  rw [stage] at stageKept
  cases found : ((ReprCache.after host.policy state.ops).getFailure dispatch.key frame.now
      frame.incoming).2 with
  | none => exact kept.restaged .checked ⟨stageKept.1, stageKept.2, cacheable⟩
  | some failure =>
    obtain ⟨slot, there, live, rfl⟩ :=
      (ReprCache.get_failure_spec _ dispatch.key frame.now frame.incoming).2.2 failure found
    exact kept.hit dispatched (intact.failure there (live_failure_current _ slot _ live))
      (live_failure_good _ slot _ live) (intact.credit dispatch.key true) kept.within cacheable
      (fun fact owed => Outcome.owes_of_error owed) nofun

/-- A frame that looked its key up. -/
theorem Intact.afterLookup (intact : Intact host care state) {id : Nat} {frame : Frame}
    {dispatch : Dispatch} (held : state.frames.lookup id = some frame)
    (stage : frame.stage = .checked) (dispatched : frame.dispatch = some dispatch) :
    FrameKept host care state
      (frame.afterLookup (state.credits dispatch.key false) state.cuts
        ((ReprCache.after host.policy state.ops).lookup dispatch.key frame.now frame.buffer
          frame.incoming (!dispatch.operation)).2) := by
  have kept := intact.frame id frame held
  have stageKept := kept.stage
  rw [stage] at stageKept
  obtain ⟨bare, isDispatched, cacheable⟩ := stageKept
  have running : ∀ offer, (∀ stale, offer = some stale →
      ∃ offered, frame.offered = some offered ∧ offered.held = .answer stale.stored) →
        RunningKept care { frame with stage := .running offer .empty } offer .empty :=
    fun offer offered => ⟨isDispatched, fun _ _ _ => bare,
      fun fact member => absurd member (by rw [bare]; exact List.not_mem_nil), offered⟩
  have dated := intact.credit dispatch.key false
  cases found : ((ReprCache.after host.policy state.ops).lookup dispatch.key frame.now
      frame.buffer frame.incoming (!dispatch.operation)).2 with
  | miss => exact kept.restaged (.running none .empty) (running none nofun)
  | hit answer =>
    obtain ⟨slot, there, live, serves⟩ := lookup_hits _ _ _ _ _ _ answer found
    have stands := intact.entry there (live_current _ slot _ live)
    have good := live_good _ slot _ live
    cases answer with
    | body shown =>
      obtain rfl : shown = slot.representation := by simpa [CacheAnswer.serves] using serves
      exact kept.hit dispatched stands good dated kept.within cacheable
        (fun fact owed => Outcome.owes_of_answer owed) (by rintro _ ⟨⟩; rfl)
    | buffer shown =>
      obtain rfl : shown = slot.representation := by simpa [CacheAnswer.serves] using serves
      exact kept.hit dispatched stands good dated kept.within cacheable
        (fun fact owed => Outcome.owes_of_answer owed) (by rintro _ ⟨⟩; rfl)
  | offer stale =>
    obtain ⟨slot, there, expired, stored, _⟩ := lookup_offers _ _ _ _ _ _ stale found
    obtain ⟨current, runOut⟩ := expired_run_out _ slot _ expired
    have stands := intact.entry there current
    rw [← stored] at stands runOut
    refine ⟨kept.taken, kept.began, kept.counted, kept.dated, kept.quiet, kept.asked, kept.door,
      ?_, fun served here => (kept.served served here).of_same rfl rfl rfl, kept.upstream,
      kept.wrote, ?_⟩
    · rintro _ ⟨⟩
      exact ⟨⟨dispatch, dispatched, stands⟩, runOut, kept.within, dated⟩
    · refine ⟨isDispatched, fun _ _ _ => bare, ?_, ?_⟩
      · intro fact member
        exact absurd (bare ▸ member) List.not_mem_nil
      · rintro _ ⟨⟩
        exact ⟨_, rfl, rfl⟩

/-- An invocation's running facts. -/
theorem FrameKept.running {frame : Frame} (kept : FrameKept host care state frame)
    {offer : Option Offer} {recorded : Recorded} (stage : frame.stage = .running offer recorded) :
    RunningKept care frame offer recorded := by
  have stageKept := kept.stage
  rw [stage] at stageKept
  exact stageKept

/-- A description's facts while it is transrepted. -/
theorem FrameKept.turning {frame : Frame} (kept : FrameKept host care state frame)
    {offer : Option Offer} {awaited : Option Nat} {current : Option Representation}
    {doors : List Nat} (stage : frame.stage = .turning offer awaited current doors) :
    TurningKept care state frame current doors := by
  have stageKept := kept.stage
  rw [stage] at stageKept
  exact stageKept

theorem FrameKept.stands {frame : Frame} (kept : FrameKept host care state frame)
    {dispatch : Dispatch} (dispatched : frame.dispatch = some dispatch) :
    ∀ offered, frame.offered = some offered →
      Stands host care (cutsOf state.ops) dispatch.key offered := by
  intro offered held
  obtain ⟨other, same, stands⟩ := (kept.offered offered held).stands
  obtain rfl : dispatch = other := Option.some.inj (dispatched.symm.trans same)
  exact stands

/-- The facts behind an offered body, passed on. -/
theorem FrameKept.vouched {frame : Frame} (kept : FrameKept host care state frame)
    {offered : FromCache} (held : frame.offered = some offered) {fact : Fact}
    (member : fact ∈ offered.credit.facts) :
    Dated host care state fact.vouched ∧
      (Counts care fact → Quiet (cutsOf state.ops) frame.taken fact.vouched) := by
  have has := kept.offered offered held
  refine ⟨?_, ?_⟩
  · have dated := has.dated fact member
    exact ⟨dated.since, dated.depth, dated.reads, dated.hangs, dated.opened, dated.behind⟩
  · intro counts thread hangs cut
    obtain ⟨dispatch, _, stands⟩ := has.stands
    apply stands.unrevoked member counts thread hangs
    have part : (cutsOf state.ops).take frame.taken <+:
        (cutsOf state.ops).take offered.cuts := List.take_prefix_take_left has.after
    exact (part.drop fact.since).subset cut

/-- The facts of an answered invocation are dated and quiet. -/
theorem FrameKept.answered {frame : Frame} (kept : FrameKept host care state frame)
    (dispatch : Dispatch) (offer : Option Offer) (given final : Representation) :
    ∀ fact ∈ answerFacts frame dispatch offer given final, Dated host care state fact ∧
      (Counts care fact → Quiet (cutsOf state.ops) frame.taken fact) := by
  have own : ∀ {fact : Fact}, Own frame.taken fact → Dated host care state fact ∧
      (Counts care fact → Quiet (cutsOf state.ops) frame.taken fact) := by
    intro fact own
    obtain ⟨dated, quiet⟩ := kept.own own
    exact ⟨dated, fun _ => quiet⟩
  intro fact member
  simp only [answerFacts, List.cons_append, List.append_assoc, List.mem_cons,
    List.mem_append] at member
  rcases member with rfl | member | member | member | member
  · exact own (Own.of_about rfl)
  · unfold bodyFacts at member
    split at member
    · cases has : frame.offered with
      | none =>
        rw [has] at member
        cases member
      | some offered =>
        rw [has] at member
        obtain ⟨old, there, rfl⟩ := List.mem_map.mp member
        exact kept.vouched has there
    · obtain rfl := List.mem_singleton.mp member
      exact own (Own.of_about rfl)
  · exact own (own_upstream _ _ fact member)
  · exact own (own_read _ _ _ fact member)
  · exact ⟨kept.dated fact member, kept.quiet fact member⟩

/-- An answered invocation ends as it must. -/
theorem FrameKept.answer {frame : Frame} (kept : FrameKept host care state frame)
    {dispatch : Dispatch} (invoked : frame.invoked dispatch) {offer : Option Offer}
    {recorded : Recorded} (stage : frame.stage = .running offer recorded)
    {given answer : Representation} (body : refreshed offer given = some answer)
    (plain : answer.revalidated = false) (now : Option Time) (costMillis : Option Nat)
    (listened : Bool) :
    FrameKept host care state
      (frame.close
        (answerOps frame.verb listened dispatch offer now
          (settled dispatch.canonical recorded frame.incoming answer) frame.taken costMillis
          frame.incoming)
        ⟨.ok (settled dispatch.canonical recorded frame.incoming answer), .none⟩
        (answerFacts frame dispatch offer given
          (settled dispatch.canonical recorded frame.incoming answer))) := by
  have running := kept.running stage
  have offered := kept.stands invoked.1
  have facts := kept.answered dispatch offer given
    (settled dispatch.canonical recorded frame.incoming answer)
  have quiet := fun fact member => (facts fact member).2
  refine kept.moved _ _ (fun fact member => (facts fact member).1) quiet
    (closing_kept invoked ?_ ?_ ?_ ?_ ?_)
  · intro _ fact member counts
    exact Outcome.owes_of_answer (answer_facts_owed running body offered fact member counts)
  · rintro _ ⟨⟩
    exact answer_facts_owed running body offered
  · intro op member filing files
    obtain ⟨rfl, stored⟩ := answer_ops_filing member files
    exact answer_warranted running body plain (kept.asked dispatch invoked.1) offered kept.began
      kept.counted quiet (storable_kept stored)
  · intro op member thread cut
    unfold answerOps at member
    split at member
    · rcases List.mem_append.mp member with discards | stores
      · rw [(discard_ops_quiet discards).2] at cut
        cases cut
      · split at stores
        · obtain rfl := List.mem_singleton.mp stores
          cases cut
        · cases stores
    · exact (write_cut_threads.1 op member).2 thread cut
  · intro mutating
    have uncacheable : ¬frame.verb.isCacheable = true := by
      rw [Verb.is_mutating_eq] at mutating
      simpa using mutating
    rw [answerOps, if_neg uncacheable]
    exact write_cut_threads.2 mutating

/-- The operations after a failure. -/
theorem failure_ops_kept {verb : Verb} {listened : Bool} {dispatch : Dispatch}
    {offer : Option Offer} :
    (∀ op ∈ writeCut verb listened dispatch.canonical ++ discardOps dispatch.key offer,
      op.filing = none ∧ ∀ thread, op.cutThread = some thread →
        verb.isMutating = true ∧ thread = dispatch.canonical) ∧
      (verb.isMutating = true →
        ∃ op ∈ writeCut verb listened dispatch.canonical ++ discardOps dispatch.key offer,
          op.cutThread = some dispatch.canonical) := by
  refine ⟨?_, ?_⟩
  · intro op member
    rcases List.mem_append.mp member with member | member
    · exact write_cut_threads.1 op member
    · obtain ⟨files, uncut⟩ := discard_ops_quiet member
      exact ⟨files, fun thread cut => by rw [uncut] at cut; cases cut⟩
  · intro mutating
    obtain ⟨op, member, cut⟩ := write_cut_threads.2 mutating
    exact ⟨op, List.mem_append_left _ member, cut⟩

/-- A failed invocation's facts are dated and quiet. -/
theorem FrameKept.failed {frame : Frame} (kept : FrameKept host care state frame)
    (dispatch : Dispatch) : ∀ fact ∈ failureFacts frame dispatch, Dated host care state fact ∧
      (Counts care fact → Quiet (cutsOf state.ops) frame.taken fact) := by
  intro fact member
  rcases List.mem_append.mp member with member | member
  · obtain ⟨dated, quiet⟩ := kept.own (own_read _ _ _ fact member)
    exact ⟨dated, fun _ => quiet⟩
  · exact ⟨kept.dated fact member, kept.quiet fact member⟩

theorem FrameKept.standing {frame : Frame} (kept : FrameKept host care state frame)
    (dispatch : Dispatch) (recorded : Recorded) (now : Option Time) :
    ∀ fact ∈ standingFacts host.ceiling frame recorded now ++ failureFacts frame dispatch,
      Dated host care state fact ∧
        (Counts care fact → Quiet (cutsOf state.ops) frame.taken fact) := by
  intro fact member
  rcases List.mem_append.mp member with member | member
  · obtain ⟨dated, quiet⟩ := kept.own (own_standing _ _ _ _ fact member)
    exact ⟨dated, fun _ => quiet⟩
  · exact kept.failed dispatch fact member

/-- An invocation that failed, with its failure cached or not. -/
theorem FrameKept.fail {frame : Frame} (kept : FrameKept host care state frame)
    {dispatch : Dispatch} (invoked : frame.invoked dispatch) {offer : Option Offer}
    {recorded : Recorded} (stage : frame.stage = .running offer recorded) (error : Error)
    (listened : Bool) (extra : List Fact) (cached : Option Time)
    (facts : ∀ fact ∈ extra ++ failureFacts frame dispatch, Dated host care state fact ∧
      (Counts care fact → Quiet (cutsOf state.ops) frame.taken fact))
    (sooner : ∀ until_, cached = some until_ → Expiry.«at» until_ ≤ recorded.expiry)
    (owed : frame.incoming = none → ∀ fact ∈ extra,
      Owed (failedDependencies (recorded.failureDependencies dispatch.canonical) cached).expiry
        (failedDependencies (recorded.failureDependencies dispatch.canonical) cached).threads
        fact) :
    FrameKept host care state
      (frame.close
        (writeCut frame.verb listened dispatch.canonical ++ discardOps dispatch.key offer)
        ⟨.error error, failedDependencies (recorded.failureDependencies dispatch.canonical) cached⟩
        (extra ++ failureFacts frame dispatch)) := by
  obtain ⟨earlier, own, more⟩ :=
    failed_dependencies_keeps dispatch.canonical recorded cached sooner
  refine kept.moved _ _ (fun fact member => (facts fact member).1)
    (fun fact member => (facts fact member).2) (closing_kept invoked ?_ nofun ?_ ?_ failure_ops_kept.2)
  · intro alone fact member counts
    rcases List.mem_append.mp member with member | member
    · exact Outcome.owes_of_error (owed alone fact member)
    · exact Outcome.owes_of_error
        (failure_facts_owed (kept.running stage) earlier own more fact member counts)
  · intro op member filing files
    rw [(failure_ops_kept.1 op member).1] at files
    cases files
  · intro op member thread cut
    exact (failure_ops_kept.1 op member).2 thread cut

/-- A description or a kernel operation that was answered. -/
theorem FrameKept.uninvoked {frame : Frame} (kept : FrameKept host care state frame)
    {dispatch : Dispatch} (dispatched : frame.dispatch = some dispatch)
    (unread : frame.verb = .«meta» ∨ dispatch.operation = true) {final : Representation}
    {facts : List Fact} {pending : List CacheOp}
    (dated : ∀ fact ∈ facts, Dated host care state fact ∧
      (Counts care fact → Quiet (cutsOf state.ops) frame.taken fact))
    (owed : ∀ fact ∈ facts, Counts care fact → Owed final.expiry final.threads fact)
    (ops : ∀ op ∈ pending, op.cutThread = none ∧ ∀ filing, op.filing = some filing →
      filing = ⟨dispatch.key, .answer final, frame.taken⟩ ∧ final.expiry ≠ .always) :
    FrameKept host care state (frame.close pending ⟨.ok final, .none⟩ facts) := by
  have quiet : ∀ fact ∈ facts, Counts care fact → Quiet (cutsOf state.ops) frame.taken fact :=
    fun fact member => (dated fact member).2
  refine kept.moved _ _ (fun fact member => (dated fact member).1) quiet ?_
  refine ⟨?_, ?_, ?_, ?_, ?_⟩
  · intro _ fact member counts
    exact Outcome.owes_of_answer (owed fact member counts)
  · rintro _ ⟨⟩
    exact owed
  · intro op member filing files
    obtain ⟨rfl, stored⟩ := (ops op member).2 filing files
    refine Warranted.of_unread stored kept.began kept.counted ?_ owed quiet
    rw [kept.asked dispatch dispatched]
    exact unread
  · intro op member thread cut
    rw [(ops op member).1] at cut
    cases cut
  · rintro canonical ⟨mutating, other, same, endpoint, _⟩
    obtain rfl : dispatch = other := Option.some.inj (dispatched.symm.trans same)
    rcases unread with described | operation
    · have isMeta : Verb.isMutating .«meta» = true := described ▸ mutating
      cases isMeta
    · exact Bool.noConfusion (operation.symm.trans endpoint)

/-- A description writes nothing. -/
theorem Frame.describes.unwritten {frame : Frame} {dispatch : Dispatch}
    (describes : frame.describes dispatch) (canonical : Iri) : ¬frame.Writes canonical := by
  rintro ⟨mutating, _⟩
  have isMeta : Verb.isMutating .«meta» = true := describes.2.1 ▸ mutating
  cases isMeta

/-- A frame that writes nothing fails with an error alone, which owes its facts. -/
theorem FrameKept.bare {frame : Frame} (kept : FrameKept host care state frame) (error : Error)
    (unwritten : ∀ canonical, ¬frame.Writes canonical) {facts : List Fact}
    (dated : ∀ fact ∈ facts, Dated host care state fact ∧
      (Counts care fact → Quiet (cutsOf state.ops) frame.taken fact))
    (owed : ∀ fact ∈ facts, Counts care fact → Outcome.Owes ⟨.error error, .none⟩ fact) :
    FrameKept host care state (frame.close [] ⟨.error error, .none⟩ facts) := by
  refine kept.moved _ _ (fun fact member => (dated fact member).1)
    (fun fact member => (dated fact member).2) ?_
  refine ⟨fun _ => owed, nofun, ?_, ?_, ?_⟩
  · intro op member
    cases member
  · intro op member
    cases member
  · exact fun canonical writes => absurd writes (unwritten canonical)

/-- A request refused before its endpoint was entered, or with none to enter. -/
theorem FrameKept.refuse {frame : Frame} (kept : FrameKept host care state frame) (error : Error)
    (version : Nat)
    (early : frame.stage = .arrived ∨ ∃ dispatch offer recorded,
      frame.stage = .running offer recorded ∧ frame.dispatch = some dispatch ∧
        ¬frame.invoked dispatch) :
    FrameKept host care state
      (frame.close [] ⟨.error error, .none⟩ (refusalFacts error version frame.taken)) := by
  refine kept.bare error ?_ ?_ fun fact member _ => Outcome.owes_of_refusal fact member
  · rintro canonical ⟨mutating, dispatch, dispatched, endpoint, _⟩
    rcases early with stage | ⟨other, offer, recorded, _, same, uninvoked⟩
    · have stageKept := kept.stage
      rw [stage] at stageKept
      cases stageKept.2.symm.trans dispatched
    · obtain rfl : dispatch = other := Option.some.inj (dispatched.symm.trans same)
      refine absurd ⟨dispatched, ?_, endpoint⟩ uninvoked
      intro described
      have isMeta : Verb.isMutating .«meta» = true := described ▸ mutating
      cases isMeta
  · intro fact member
    obtain ⟨dated, quiet⟩ := kept.own (own_refusal error version frame.taken fact member)
    exact ⟨dated, fun _ => quiet⟩

/-- The answer of an invocation that was offered nothing to stand for. -/
theorem FrameKept.unoffered {frame : Frame} (kept : FrameKept host care state frame)
    {dispatch : Dispatch} (invoked : frame.invoked dispatch) (listened : Bool) :
    FrameKept host care state
      (frame.close (writeCut frame.verb listened dispatch.canonical)
        ⟨.error (.endpoint unofferedDetail), .none⟩ frame.facts) := by
  refine kept.moved _ _ kept.dated kept.quiet (closing_kept invoked ?_ nofun ?_ ?_ write_cut_threads.2)
  · intro _ fact member counts
    exact Outcome.owes_of_spoiled fun _ => rfl
  · intro op member filing files
    rw [(write_cut_threads.1 op member).1] at files
    cases files
  · intro op member thread cut
    exact (write_cut_threads.1 op member).2 thread cut

/-- A record that keeps all it had, with facts it owes. -/
theorem FrameKept.note {frame : Frame} (kept : FrameKept host care state frame)
    {dispatch : Dispatch} (invoked : frame.invoked dispatch) {offer : Option Offer}
    {recorded after : Recorded} (stage : frame.stage = .running offer recorded)
    {facts : List Fact} (within : Recorded.Within recorded after)
    (dated : ∀ fact ∈ facts, Dated host care state fact ∧
      (Counts care fact → Quiet (cutsOf state.ops) frame.taken fact))
    (owed : ∀ fact ∈ facts, Counts care fact → Owed after.expiry after.threads fact) :
    FrameKept host care state (frame.note offer after facts) := by
  have running := kept.running stage
  refine kept.moved _ _ ?_ ?_ ?_
  · intro fact member
    rcases List.mem_append.mp member with member | member
    · exact (dated fact member).1
    · exact kept.dated fact member
  · intro fact member counts
    rcases List.mem_append.mp member with member | member
    · exact (dated fact member).2 counts
    · exact kept.quiet fact member counts
  · refine ⟨running.dispatched, ?_, ?_, running.offered⟩
    · intro other same uninvoked
      obtain rfl : dispatch = other := Option.some.inj (invoked.1.symm.trans same)
      exact absurd invoked uninvoked
    · intro fact member counts
      rcases List.mem_append.mp member with member | member
      · exact owed fact member counts
      · exact (running.owes fact member counts).within within.expiry
          fun _ => within.threads

end Ikigai
