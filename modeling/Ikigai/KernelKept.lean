import Ikigai.HeardFacts

/-!
# Every step keeps the facts

A step is taken apart into the move of a frame and the cache operation it makes, and each
is shown to keep what a run keeps. What a run reaches is then intact.
-/

namespace Ikigai

variable {π δ : Type} [CachePolicy π] {host : Host π δ} {care : Care} {state : KernelState δ}

/-- What a cut queues: its first operation cuts the thread, and none of them files. -/
theorem cut_ops_head (listened : Bool) (thread : Thread) :
    ∃ first rest, cutOps listened thread = first :: rest ∧ first.cutThread = some thread := by
  cases listened with
  | true => exact ⟨_, _, rfl, rfl⟩
  | false => exact ⟨_, _, rfl, rfl⟩

theorem cut_ops_threads (listened : Bool) (thread : Thread) :
    (∃ op ∈ cutOps listened thread, op.cutThread = some thread) ∧
      ∀ op ∈ cutOps listened thread, op.filing = none := by
  cases listened with
  | true =>
    refine ⟨⟨_, List.mem_singleton_self _, rfl⟩, ?_⟩
    intro op member
    obtain rfl := List.mem_singleton.mp member
    rfl
  | false =>
    refine ⟨⟨_, List.mem_cons_self, rfl⟩, ?_⟩
    intro op member
    rcases List.mem_cons.mp member with rfl | member
    · rfl
    · obtain rfl := List.mem_singleton.mp member
      rfl

/-- A bind is swapped in after everything that was established before. -/
theorem Grows.of_bind (id : Nat) (candidate : Candidate δ) (objection : Option Text)
    (now : Option Time) (listened : Bool × Bool) {declared : δ}
    (accepted : host.binder.verdict objection candidate = .ok declared) :
    Grows host state
      (state.bound host.binder host.spaceThread id candidate objection now listened) := by
  have next : (state.space.offered host.binder objection now candidate).installs =
      state.space.installs + 1 := by
    simp only [DynamicState.offered, accepted, DynamicState.swap]
  refine ⟨⟨[], by simp [KernelState.bound]⟩, le_rfl, ?_, ?_, ?_⟩
  · exact (Nat.le_succ _).trans next.ge
  · rintro version since within ⟨inForce, before⟩
    refine ⟨(inForce.trans (Nat.le_succ _)).trans next.ge, ?_⟩
    intro other install held later
    simp only [KernelState.bound, KeyedMap.lookup_insert_eq] at held
    split at held
    · cases held
      exact within
    · exact before other install held later
  · intro version since _ closes other install held later index cut
    simp only [KernelState.bound, KeyedMap.lookup_insert_eq] at held
    split at held
    · cases held
      cases cut
    · exact closes other install held later index cut

/-- A candidate that binds leaves all it found as it was, and owes its two cuts. -/
theorem Intact.bind (intact : Intact host care state) (id : Nat) (candidate : Candidate δ)
    (objection : Option Text) (now : Option Time) (listened : Bool × Bool) {declared : δ}
    (accepted : host.binder.verdict objection candidate = .ok declared) :
    Intact host care
      (state.bound host.binder host.spaceThread id candidate objection now listened) := by
  have grows : Grows host state
      (state.bound host.binder host.spaceThread id candidate objection now listened) :=
    Grows.of_bind id candidate objection now listened accepted
  refine ⟨fun other frame held => grows.frame (intact.frame other frame held), intact.issuer,
    intact.filed, fun key failure fact member => grows.dated (intact.credit key failure fact member),
    ?_⟩
  intro other install held
  simp only [KernelState.bound, KeyedMap.lookup_insert_eq] at held
  split at held
  · cases held
    refine ⟨?_, le_rfl, ?_, ?_, ?_, ?_, ?_⟩
    · simp only [KernelState.bound, DynamicState.offered, accepted, DynamicState.swap, le_refl]
    · intro cut member
      cases member
    · rintro thread (rfl | rfl)
      · obtain ⟨op, member, cut⟩ := (cut_ops_threads listened.1 host.spaceThread).1
        exact .inr ⟨op, List.mem_append_left _ member, cut⟩
      · obtain ⟨op, member, cut⟩ := (cut_ops_threads listened.2 bindingsThread).1
        exact .inr ⟨op, List.mem_append_right _ member, cut⟩
    · intro op member
      rcases List.mem_append.mp member with member | member
      · exact (cut_ops_threads _ _).2 op member
      · exact (cut_ops_threads _ _).2 op member
    · intro index member
      cases member
    · -- The first operation of all cuts the space's thread.
      intro early op rest split _
      obtain ⟨first, others, opens, cut⟩ := cut_ops_head listened.1 host.spaceThread
      rw [opens, List.cons_append] at split
      refine .inl ⟨first, ?_, cut⟩
      cases early with
      | nil =>
        obtain ⟨rfl, _⟩ := List.cons.inj split
        exact List.mem_singleton_self _
      | cons head tail =>
        obtain ⟨rfl, _⟩ := List.cons.inj split
        exact List.mem_cons_self
  · exact grows.install (intact.install other install held)

/-- The next cut of a bind. -/
theorem Intact.cutBound (intact : Intact host care state) {id : Nat} {install : Install}
    {op : CacheOp} {rest : List CacheOp} (held : state.installs.lookup id = some install)
    (next : install.pending = op :: rest) :
    Intact host care
      { state.observe op with
        installs := state.installs.insert id
          { install with
            pending := rest
            made := op.cutThread.toList.map (fun thread => (thread, state.cuts)) ++
              install.made } } := by
  have own := intact.install id install held
  have quiet : op.filing = none := own.files op (by rw [next]; exact List.mem_cons_self)
  have after := intact.observe op quiet
  have ownAfter := after.install id install held
  have grows : Grows host state
      { state.observe op with
        installs := state.installs.insert id
          { install with
            pending := rest
            made := op.cutThread.toList.map (fun thread => (thread, state.cuts)) ++
              install.made } } := by
    refine ⟨⟨_, cutsOf_concat state.ops op⟩, snapshot_mono host.policy state.ops op, le_rfl, ?_, ?_⟩
    · rintro version since _ ⟨inForce, before⟩
      refine ⟨inForce, ?_⟩
      intro other found there later
      simp only [KeyedMap.lookup_insert_eq] at there
      split at there
      · cases there
        exact before id install held later
      · exact before other found there later
    · intro version since within closes other found there later index cut
      simp only [KeyedMap.lookup_insert_eq] at there
      split at there
      · cases there
        rcases List.mem_append.mp cut with fresh | made
        · obtain ⟨thread, _, ⟨⟩⟩ := List.mem_map.mp fresh
          exact within
        · exact closes id install held later index made
      · exact closes other found there later index cut
  refine ⟨fun other frame there => grows.frame (intact.frame other frame there), intact.issuer,
    after.filed, fun key failure fact member => grows.dated (intact.credit key failure fact member),
    ?_⟩
  intro other found there
  simp only [KeyedMap.lookup_insert_eq] at there
  split at there
  · cases there
    refine ⟨ownAfter.version, ownAfter.swapped, ?_, ?_, ?_, ?_, ?_⟩
    · intro cut member
      rcases List.mem_append.mp member with fresh | earlier
      · obtain ⟨thread, cuts, rfl⟩ := List.mem_map.mp fresh
        refine ⟨own.swapped, ?_⟩
        have history : cutsOf (state.observe op).ops = cutsOf state.ops ++ [thread] := by
          rw [KernelState.observe, cutsOf_concat, Option.mem_toList.mp cuts, Option.toList_some]
        dsimp only
        rw [history, KernelState.cuts, List.getElem?_append_right le_rfl, Nat.sub_self]
        rfl
      · exact ownAfter.made cut earlier
    · intro thread cuts
      rcases own.cuts thread cuts with ⟨index, made⟩ | ⟨other, member, cut⟩
      · exact .inl ⟨index, List.mem_append_right _ made⟩
      · rw [next] at member
        rcases List.mem_cons.mp member with rfl | member
        · refine .inl ⟨state.cuts, List.mem_append_left _ ?_⟩
          rw [cut]
          exact List.mem_singleton_self _
        · exact .inr ⟨other, member, cut⟩
    · intro other member
      exact own.files other (by rw [next]; exact List.mem_cons_of_mem _ member)
    · intro index member
      rcases List.mem_append.mp member with fresh | earlier
      · obtain ⟨thread, cuts, ⟨⟩⟩ := List.mem_map.mp fresh
        rcases own.queued [] op rest next (Option.mem_toList.mp cuts) with
          ⟨first, only, cut⟩ | ⟨earlier, made⟩
        · obtain rfl := List.mem_singleton.mp only
          refine ⟨state.cuts, le_rfl, List.mem_append_left _ ?_⟩
          rw [cut]
          exact List.mem_singleton_self _
        · refine ⟨earlier, ?_, List.mem_append_right _ made⟩
          obtain ⟨inside, _⟩ := List.getElem?_eq_some_iff.mp (own.made _ made).2
          exact inside.le
      · obtain ⟨first, before, made⟩ := own.ordered index earlier
        exact ⟨first, before, List.mem_append_right _ made⟩
    · intro early other later split cut
      have whole : install.pending = op :: early ++ other :: later := next.trans (by
        rw [List.cons_append, ← split])
      rcases own.queued (op :: early) other later whole cut with
        ⟨first, member, opens⟩ | ⟨index, made⟩
      · rcases List.mem_cons.mp member with rfl | member
        · refine .inr ⟨state.cuts, List.mem_append_left _ ?_⟩
          rw [opens]
          exact List.mem_singleton_self _
        · exact .inl ⟨first, member, opens⟩
      · exact .inr ⟨index, List.mem_append_right _ made⟩
  · exact grows.install (intact.install other found there)

/-- The next operation of a frame that ends: what it files is warranted, and a write's cut
is counted. -/
theorem Intact.close (intact : Intact host care state) {id : Nat} {frame : Frame} {op : CacheOp}
    {rest : List CacheOp} {issued : Issued} (held : state.frames.lookup id = some frame)
    (stage : frame.stage = .closing (op :: rest) issued) :
    Intact host care
      ((state.perform host.policy op ⟨frame.began, frame.facts⟩).set id
        { frame with
          stage := .closing rest issued
          wrote := if op.cutThread.isSome then some state.cuts else frame.wrote }) := by
  have before := intact.frame id frame held
  have closing := before.stage
  rw [stage] at closing
  have first : op ∈ op :: rest := List.mem_cons_self
  have after := intact.perform op ⟨frame.began, frame.facts⟩
    (fun filing files => closing.files op first filing files) before.dated
  have kept := after.frame id frame held
  have history : cutsOf (state.perform host.policy op ⟨frame.began, frame.facts⟩).ops =
      cutsOf state.ops ++ op.cutThread.toList := cutsOf_concat state.ops op
  have closingAfter := kept.stage
  rw [stage] at closingAfter
  refine after.replace held rfl rfl ⟨kept.taken, kept.began, kept.counted, kept.dated, kept.quiet,
    kept.asked, kept.door, fun offered has => (kept.offered offered has).of_same rfl rfl rfl,
    fun served has => (kept.served served has).of_same rfl rfl rfl, kept.upstream, ?_, ?_⟩
  · intro index wrote
    dsimp only at wrote
    split at wrote
    · rename_i cuts
      obtain ⟨thread, cut⟩ := Option.isSome_iff_exists.mp cuts
      obtain rfl := Option.some.inj wrote
      refine ⟨thread, closing.cuts op first thread cut, ?_⟩
      rw [history, cut, KernelState.cuts, List.getElem?_append_right le_rfl, Nat.sub_self]
      rfl
    · exact kept.wrote index wrote
  · refine ⟨closingAfter.owes, closingAfter.answers, ?_, ?_, ?_⟩
    · exact fun other member => closingAfter.files other (List.mem_cons_of_mem _ member)
    · exact fun other member => closing.cuts other (List.mem_cons_of_mem _ member)
    · intro canonical writes
      dsimp only
      split
      · exact .inl rfl
      · rename_i uncut
        rcases closing.writes canonical writes with wrote | ⟨other, member, cut⟩
        · exact .inl wrote
        · rcases List.mem_cons.mp member with rfl | member
          · rw [cut] at uncut
            exact absurd rfl uncut
          · exact .inr ⟨other, member, cut⟩

/-- A request arrives under the issuer it came from. -/
theorem Intact.arrive (intact : Intact host care state) {id : Nat} (parent : Option Nat)
    (requested : Iri) (verb : Verb) (buffer : Bool) (incoming : Option Provenance)
    (now : Option Time) (fresh : state.frames.lookup id = none)
    (issued : ∀ issuer, parent = some issuer → incoming = none ∧
      ∃ frame, state.frames.lookup issuer = some frame) :
    Intact host care
      (state.arrive host.policy id parent requested verb buffer incoming now) := by
  have after := intact.observe .snapshot rfl
  have recorded := snapshot_le_cuts host.policy state.ops
  have history : cutsOf (state.observe .snapshot).ops = cutsOf state.ops :=
    cutsOf_concat_none state.ops .snapshot rfl
  refine after.set ?_ ?_ ?_
  · refine ⟨snapshot_mono host.policy state.ops .snapshot, recorded, ?_, ?_, ?_, ?_, ?_, ?_, ?_,
      ?_, ?_, ⟨rfl, rfl⟩⟩
    · rw [KernelState.cuts, KernelState.cuts, history]
    · intro fact member
      cases member
    · intro fact member
      cases member
    · intro dispatch held
      cases held
    · intro dispatch version held
      cases held
    · intro offered held
      cases held
    · intro served held
      cases held
    · intro child
      obtain ⟨issuer, from_⟩ := Option.isSome_iff_exists.mp child
      simp only [(issued issuer from_).1, Option.filter_none]
    · intro index wrote
      cases wrote
  · intro issuer from_
    obtain ⟨_, above, there⟩ := issued issuer from_
    exact ⟨above, there, (intact.frame issuer above there).taken⟩
  · intro old there
    exact Option.some_ne_none old (there.symm.trans fresh) |>.elim

/-- A refused candidate changes nothing a frame relies on. -/
theorem Intact.refuseBind (intact : Intact host care state) (candidate : Candidate δ)
    (objection : Option Text) (now : Option Time) (refusal : DynamicRefusal)
    (refused : host.binder.verdict objection candidate = .error refusal) :
    Intact host care
      { state with space := state.space.offered host.binder objection now candidate } := by
  have same : (state.space.offered host.binder objection now candidate).installs =
      state.space.installs := by
    rw [DynamicState.refused_unchanged _ _ _ _ _ refusal refused]
  have grows : Grows host state
      { state with space := state.space.offered host.binder objection now candidate } :=
    ⟨⟨[], by simp⟩, le_rfl, same.ge, fun _ _ _ opened => ⟨opened.1.trans same.ge, opened.2⟩,
      fun _ _ _ closes => closes⟩
  exact ⟨fun id frame held => grows.frame (intact.frame id frame held), intact.issuer,
    intact.filed, fun key failure fact member => grows.dated (intact.credit key failure fact member),
    fun id install held => grows.install (intact.install id install held)⟩

/-- A name resolved and admitted: the door it was found behind is of the version in force. -/
theorem Intact.resolve (intact : Intact host care state) {id : Nat} {frame : Frame}
    (dispatch : Dispatch) (held : state.frames.lookup id = some frame)
    (stage : frame.stage = .arrived)
    (stands : host.asked dispatch.key = ⟨frame.verb, dispatch.canonical, dispatch.operation⟩)
    (door : dispatch.door = none ∨ dispatch.door = some state.space.installs) :
    Intact host care
      (state.set id { frame with dispatch := some dispatch, stage := .admitted }) := by
  have kept := intact.frame id frame held
  have arrived := kept.stage
  rw [stage] at arrived
  obtain ⟨bare, undispatched⟩ := arrived
  refine intact.replace held rfl rfl ⟨kept.taken, kept.began, kept.counted, kept.dated,
    kept.quiet, ?_, ?_, ?_, ?_, kept.upstream, ?_, ⟨bare, rfl⟩⟩
  · rintro other ⟨⟩
    exact stands
  · rintro other version ⟨⟩ behind
    rcases door with none | current
    · cases none.symm.trans behind
    · obtain rfl : state.space.installs = version :=
        Option.some.inj (current.symm.trans behind)
      refine ⟨le_rfl, ?_⟩
      intro other install there later
      exact absurd (intact.install other install there).version (not_le.mpr later)
  · intro offered has
    obtain ⟨other, same, _⟩ := (kept.offered offered has).stands
    cases undispatched.symm.trans same
  · intro served has
    obtain ⟨other, same, _⟩ := (kept.served served has).stands
    cases undispatched.symm.trans same
  · intro index wrote
    obtain ⟨canonical, ⟨_, other, same, _⟩, _⟩ := kept.wrote index wrote
    cases undispatched.symm.trans same

/-- A verb that is never cached, on its way to its endpoint. -/
theorem Intact.enter (intact : Intact host care state) {id : Nat} {frame : Frame}
    (held : state.frames.lookup id = some frame) (stage : frame.stage = .admitted) :
    Intact host care (state.set id { frame with stage := .running none .empty }) := by
  have kept := intact.frame id frame held
  have admitted := kept.stage
  rw [stage] at admitted
  refine intact.replace held rfl rfl (kept.restaged _
    ⟨admitted.2, fun _ _ _ => admitted.1, ?_, ?_⟩)
  · intro fact member
    exact absurd (admitted.1 ▸ member) List.not_mem_nil
  · intro stale offered
    cases offered

/-- A frame whose failures are not asked. -/
theorem Intact.skipFailures (intact : Intact host care state) {id : Nat} {frame : Frame}
    (held : state.frames.lookup id = some frame) (stage : frame.stage = .admitted)
    (cacheable : frame.verb.isCacheable = true) :
    Intact host care (state.set id { frame with stage := .checked }) := by
  have kept := intact.frame id frame held
  have admitted := kept.stage
  rw [stage] at admitted
  exact intact.replace held rfl rfl (kept.restaged _ ⟨admitted.1, admitted.2, cacheable⟩)

/-- A frame that asked the failures, once the cache was used for it. -/
theorem Intact.askFailure (intact : Intact host care state) {id : Nat} {frame : Frame}
    {dispatch : Dispatch} (held : state.frames.lookup id = some frame)
    (stage : frame.stage = .admitted) (cacheable : frame.verb.isCacheable = true)
    (dispatched : frame.dispatch = some dispatch) :
    Intact host care
      ((state.observe (.getFailure dispatch.key frame.now frame.incoming)).set id
        (frame.afterFailure (state.credits dispatch.key true) state.cuts
          ((ReprCache.after host.policy state.ops).getFailure dispatch.key frame.now
            frame.incoming).2)) := by
  have kept := intact.afterFailure held stage cacheable dispatched
  have grows : Grows host state
      (state.observe (.getFailure dispatch.key frame.now frame.incoming)) := Grows.of_op _
  refine (intact.observe _ rfl).replace held ?_ ?_ (grows.frame kept)
  · cases ((ReprCache.after host.policy state.ops).getFailure dispatch.key frame.now
      frame.incoming).2 <;> rfl
  · cases ((ReprCache.after host.policy state.ops).getFailure dispatch.key frame.now
      frame.incoming).2 <;> rfl

/-- A frame that looked its key up, once the cache was used for it. -/
theorem Intact.look (intact : Intact host care state) {id : Nat} {frame : Frame}
    {dispatch : Dispatch} (held : state.frames.lookup id = some frame)
    (stage : frame.stage = .checked) (dispatched : frame.dispatch = some dispatch) :
    Intact host care
      ((state.observe (.lookup dispatch.key frame.now frame.buffer frame.incoming
          (!dispatch.operation))).set id
        (frame.afterLookup (state.credits dispatch.key false) state.cuts
          ((ReprCache.after host.policy state.ops).lookup dispatch.key frame.now frame.buffer
            frame.incoming (!dispatch.operation)).2)) := by
  have kept := intact.afterLookup held stage dispatched
  have grows : Grows host state (state.observe (.lookup dispatch.key frame.now frame.buffer
    frame.incoming (!dispatch.operation))) := Grows.of_op _
  have same : ∀ found, (frame.afterLookup (state.credits dispatch.key false) state.cuts
      found).parent = frame.parent ∧ (frame.afterLookup (state.credits dispatch.key false)
        state.cuts found).taken = frame.taken := by
    intro found
    cases found with
    | miss => exact ⟨rfl, rfl⟩
    | offer stale => exact ⟨rfl, rfl⟩
    | hit answer => cases answer <;> exact ⟨rfl, rfl⟩
  exact (intact.observe _ rfl).replace held (same _).1 (same _).2 (grows.frame kept)

/-- What an endpoint says through its invocation. -/
theorem Intact.declare (intact : Intact host care state) {id : Nat} {frame : Frame}
    {dispatch : Dispatch} {offer : Option Offer} {recorded : Recorded}
    (declaration : Declaration) (held : state.frames.lookup id = some frame)
    (invoked : frame.invoked dispatch) (stage : frame.stage = .running offer recorded) :
    Intact host care
      (state.set id
        (frame.note offer (declaration.apply recorded) (declaration.facts frame.taken))) := by
  have kept := intact.frame id frame held
  obtain ⟨within, owed⟩ := declaration.kept recorded frame.taken
  refine intact.replace held rfl rfl (kept.note invoked stage within ?_ fun fact member _ =>
    owed fact member)
  intro fact member
  obtain ⟨dated, quiet⟩ := kept.own (own_declaration declaration _ fact member)
  exact ⟨dated, fun _ => quiet⟩

/-- The door of a dynamic space, as it is entered. -/
theorem Intact.enterDoor (intact : Intact host care state) {id : Nat} {frame : Frame}
    {dispatch : Dispatch} {offer : Option Offer} {recorded : Recorded} {version : Nat}
    (held : state.frames.lookup id = some frame) (invoked : frame.invoked dispatch)
    (stage : frame.stage = .running offer recorded) (door : dispatch.door = some version) :
    Intact host care
      (state.set id (frame.note offer (recorded.dependsOn host.spaceThread)
        [Fact.on (.door version) host.spaceThread frame.taken])) := by
  have kept := intact.frame id frame held
  refine intact.replace held rfl rfl (kept.note invoked stage (recorded.within_step _) ?_ ?_)
  · intro fact member
    obtain rfl := List.mem_singleton.mp member
    exact ⟨kept.doorDated invoked.1 door (.inl rfl), fun _ => quiet_since _ _⟩
  · intro fact member _
    obtain rfl := List.mem_singleton.mp member
    exact Owed.of_on fun _ => by simp [Recorded.dependsOn]

/-- A frame that has handed its result over, and another, which is the one that heard of it. -/
theorem Intact.handOver (intact : Intact host care state) {id issuer : Nat}
    {child frame after : Frame} {issued : Issued} (there : state.frames.lookup id = some child)
    (done : child.stage = .closing [] issued) (held : state.frames.lookup issuer = some frame)
    (moves : frame.stage ≠ child.stage) (parent : after.parent = frame.parent)
    (taken : after.taken = frame.taken) (kept : FrameKept host care state after) :
    Intact host care ((state.set id { child with stage := .delivered }).set issuer after) := by
  have closing := (intact.frame id child there).stage
  rw [done] at closing
  have delivered : Intact host care (state.set id { child with stage := .delivered }) := by
    refine intact.replace there rfl rfl ((intact.frame id child there).restaged _ ?_)
    intro canonical writes
    rcases closing.writes canonical writes with wrote | ⟨op, member, _⟩
    · exact wrote
    · cases member
  have still : (state.set id { child with stage := .delivered }).frames.lookup issuer =
      some frame := by
    rw [KernelState.set, KeyedMap.lookup_insert_eq, if_neg]
    · exact held
    · rintro rfl
      obtain rfl : child = frame := Option.some.inj (there.symm.trans held)
      exact moves rfl
  have grows : Grows host state (state.set id { child with stage := .delivered }) :=
    Grows.of_frames _ _
  exact delivered.replace still parent taken (grows.frame kept)

/-- What letting a failure stand relies on hangs from nothing, when nothing fed the request. -/
theorem standing_bare {ceiling : Nat} {frame : Frame} {recorded : Recorded} {now : Option Time}
    (alone : frame.incoming = none) : ∀ fact ∈ standingFacts ceiling frame recorded now,
      fact.threads = OrderedSet.empty := by
  intro fact member
  simp only [standingFacts, alone, upstreamFacts, List.append_nil, List.mem_append] at member
  rcases member with member | member
  · cases said : recorded.failureUntil with
    | none => simp [said] at member
    | some deadline =>
      rw [said] at member
      rw [List.mem_singleton.mp member]
      rfl
  · cases now with
    | none => cases member
    | some read =>
      rw [List.mem_singleton.mp member]
      rfl

/-- A failure that may be cached: the store, and the frame that ends with it. -/
theorem Intact.failStored (intact : Intact host care state) {id : Nat} {frame : Frame}
    {dispatch : Dispatch} {offer : Option Offer} {recorded : Recorded} (error : Error)
    {now : Option Time} (listened : Bool) {until_ : Time} {op : CacheOp}
    (held : state.frames.lookup id = some frame) (invoked : frame.invoked dispatch)
    (stage : frame.stage = .running offer recorded)
    (stored : failureStore host.ceiling frame dispatch recorded error now = some (until_, op)) :
    Intact host care
      ((state.perform host.policy op
          ⟨frame.began, standingFacts host.ceiling frame recorded now ++
            failureFacts frame dispatch⟩).set id
        (frame.close
          (writeCut frame.verb listened dispatch.canonical ++ discardOps dispatch.key offer)
          ⟨.error error, failedDependencies (recorded.failureDependencies dispatch.canonical)
            (if ((ReprCache.after host.policy state.ops).perform op).2.took = true then
              some until_ else none)⟩
          (if ((ReprCache.after host.policy state.ops).perform op).2.took = true then
              standingFacts host.ceiling frame recorded now ++ failureFacts frame dispatch
            else failureFacts frame dispatch))) := by
  obtain ⟨threads, may, rfl⟩ := failure_store_spec stored
  have kept := intact.frame id frame held
  have facts := kept.standing dispatch recorded now
  have after := intact.perform (.storeFailure dispatch.key dispatch.canonical error until_
      threads frame.taken frame.incoming)
    ⟨frame.began, standingFacts host.ceiling frame recorded now ++ failureFacts frame dispatch⟩
    (by
      rintro filing ⟨⟩
      exact failure_warranted (kept.running stage) may (kept.asked dispatch invoked.1) kept.began
        kept.counted fun fact member => (facts fact member).2)
    fun fact member => (facts fact member).1
  have keptAfter := after.frame id frame held
  refine after.replace held rfl rfl ?_
  split
  · -- The cache took it: what lets it stand counts too.
    refine keptAfter.fail invoked stage error listened
      (standingFacts host.ceiling frame recorded now) (some until_)
      (keptAfter.standing dispatch recorded now) ?_ ?_
    · rintro _ ⟨⟩
      exact (failure_to_store_spec may).2.2.1
    · intro alone fact member
      have stands := standing_owed may fact member
      refine ⟨stands.sooner, stands.lasts, .inr fun thread hangs => ?_⟩
      rw [standing_bare alone fact member] at hangs
      exact absurd hangs ((OrderedSet.mem_empty thread).mp ·)
  · refine keptAfter.fail invoked stage error listened [] none (keptAfter.failed dispatch) ?_ ?_
    · intro until_ cached
      cases cached
    · intro _ fact member
      cases member

/-- The operations after a description cut nothing, and store its face alone. -/
theorem described_ops {dispatch : Dispatch} {offer : Option Offer} {now : Option Time}
    {final : Representation} {taken : Nat} {costMillis : Option Nat}
    {incoming : Option Provenance} {op : CacheOp}
    (member : op ∈ answerOps .«meta» false dispatch offer now final taken costMillis incoming) :
    op.cutThread = none ∧ ∀ filing, op.filing = some filing →
      filing = ⟨dispatch.key, .answer final, taken⟩ ∧ final.expiry ≠ .always := by
  refine ⟨?_, fun filing files => ?_⟩
  · rcases List.mem_append.mp member with discards | stores
    · exact (discard_ops_quiet discards).2
    · split at stores
      · obtain rfl := List.mem_singleton.mp stores
        rfl
      · cases stores
  · obtain ⟨rfl, stored⟩ := answer_ops_filing member files
    exact ⟨rfl, storable_kept stored⟩

/-- The facts of a description that has its face: its own, and those of its steps. -/
theorem FrameKept.described {frame : Frame} (kept : FrameKept host care state frame)
    {dispatch : Dispatch} {offer : Option Offer} {doors : List Nat} {bound : Expiry}
    {rendered : Representation} (now : Option Time) (costMillis : Option Nat)
    (describes : frame.describes dispatch)
    (stage : (∃ recorded, frame.stage = .running offer recorded ∧ doors = []) ∨
      frame.stage = .turning offer none (some rendered) doors) :
    FrameKept host care state
      (frame.close
        (answerOps frame.verb false dispatch offer now (describedFace bound rendered) frame.taken
          costMillis frame.incoming)
        ⟨.ok (describedFace bound rendered), .none⟩
        (describedFacts dispatch.door doors bound frame.taken ++ frame.facts)) := by
  obtain ⟨dispatched, verb, endpoint⟩ := describes
  have passed : (care.collects → ∀ version ∈ doors, Closes state version frame.taken) ∧
      ∀ fact ∈ frame.facts, Counts care fact →
        Owed (describedFace bound rendered).expiry (describedFace bound rendered).threads fact := by
    rcases stage with ⟨recorded, running, rfl⟩ | turning
    · have uninvoked : ¬frame.invoked dispatch := fun invoked => invoked.2.1 verb
      have bare := (kept.running running).bare dispatch dispatched uninvoked
      exact ⟨fun _ => by simp, fun fact member => by simp [bare] at member⟩
    · have still := kept.turning turning
      exact ⟨still.closes, fun fact member counts =>
        (still.owes fact member counts).described (fun _ => id) bound⟩
  refine kept.uninvoked dispatched (.inl verb) ?_ ?_ ?_
  · intro fact member
    rcases List.mem_append.mp member with own | taken
    · rw [describedFacts, List.cons_append, List.mem_cons, List.mem_append] at own
      rcases own with rfl | own | own
      · have plain : Own frame.taken
            (.own .described (OrderedSet.ofList [bindingsThread]) bound frame.taken) :=
          Own.of_about rfl
        obtain ⟨dated, quiet⟩ := kept.own plain
        exact ⟨dated, fun _ => quiet⟩
      · cases door : dispatch.door with
        | none =>
          rw [door] at own
          cases own
        | some version =>
          rw [door] at own
          obtain rfl := List.mem_singleton.mp own
          exact ⟨kept.doorDated dispatched door (.inr rfl), fun _ => quiet_since _ _⟩
      · obtain ⟨version, behind, rfl⟩ := List.mem_map.mp own
        exact ⟨kept.behindDated fun full => passed.1 full version behind,
          fun _ => quiet_since _ _⟩
    · exact ⟨kept.dated fact taken, kept.quiet fact taken⟩
  · intro fact member counts
    rcases List.mem_append.mp member with own | taken
    · exact described_owed _ _ _ _ _ fact own
    · exact passed.2 fact taken counts
  · intro op member
    rw [verb] at member
    exact described_ops member

/-- A kernel operation's answer. -/
theorem FrameKept.operated {frame : Frame} (kept : FrameKept host care state frame)
    {dispatch : Dispatch} (answer : Representation) (now : Option Time) (costMillis : Option Nat)
    (dispatched : frame.dispatch = some dispatch) (operation : dispatch.operation = true) :
    FrameKept host care state
      (frame.close
        (if frame.verb.isCacheable &&
            operationStorable now (operationAnswer frame.incoming answer) then
          [.store dispatch.key dispatch.canonical (operationAnswer frame.incoming answer)
            frame.taken costMillis frame.incoming]
        else [])
        ⟨.ok (operationAnswer frame.incoming answer), .none⟩
        (upstreamFacts frame.incoming frame.taken)) := by
  refine kept.uninvoked dispatched (.inr operation) ?_
    (fun fact member _ => operation_owed _ _ _ fact member) ?_
  · intro fact member
    obtain ⟨dated, quiet⟩ := kept.own (own_upstream _ _ fact member)
    exact ⟨dated, fun _ => quiet⟩
  · intro op member
    split at member
    · rename_i stored
      obtain rfl := List.mem_singleton.mp member
      refine ⟨rfl, ?_⟩
      rintro filing ⟨⟩
      exact ⟨rfl, operation_storable_kept (Bool.and_eq_true_iff.mp stored).2⟩
    · cases member

/-- The next step of a transreption: the step arrives, and the description waits for it. -/
theorem Intact.issueTurn (intact : Intact host care state) {id issuer : Nat} {frame : Frame}
    {offer : Option Offer} {current : Option Representation} {doors : List Nat}
    (requested : Iri) (now : Option Time) (fresh : state.frames.lookup id = none)
    (held : state.frames.lookup issuer = some frame)
    (stage : frame.stage = .turning offer none current doors) :
    Intact host care
      ((state.arrive host.policy id (some issuer) requested .source true none now).set issuer
        { frame with stage := .turning offer (some id) current doors }) := by
  have arrived := intact.arrive (some issuer) requested .source true none now fresh (by
    rintro _ ⟨⟩
    exact ⟨rfl, frame, held⟩)
  have still : (state.arrive host.policy id (some issuer) requested .source true none
      now).frames.lookup issuer = some frame := by
    rw [KernelState.arrive, KernelState.set, KeyedMap.lookup_insert_eq, if_neg]
    · exact held
    · rintro rfl
      cases fresh.symm.trans held
  have kept := arrived.frame issuer frame still
  have turning := kept.turning stage
  exact arrived.replace still rfl rfl (kept.restaged _
    ⟨turning.describes, turning.marked, turning.owes, turning.closes⟩)

/-- A step keeps all that a run keeps. -/
theorem step_intact {before after : KernelState δ} (intact : Intact host care before)
    (step : KernelStep host care before after) : Intact host care after := by
  cases step with
  | hosted op files => exact intact.observe op files
  | refuseBind candidate objection now refusal refused =>
    exact intact.refuseBind candidate objection now refusal refused
  | bind id candidate objection now listened declared fresh accepted =>
    exact intact.bind id candidate objection now listened accepted
  | cutBound id install op rest held next => exact intact.cutBound held next
  | arrive id parent requested verb buffer incoming now fresh issued =>
    refine intact.arrive parent requested verb buffer incoming now fresh ?_
    intro issuer from_
    obtain ⟨alone, frame, _, _, _, there, _⟩ := issued issuer from_
    exact ⟨alone, frame, there⟩
  | refuse id frame error held early =>
    exact intact.replace held rfl rfl ((intact.frame id frame held).refuse error _ early)
  | resolve id frame dispatch held stage stands door =>
    exact intact.resolve dispatch held stage stands door
  | enter id frame held stage verb => exact intact.enter held stage
  | skipFailures id frame dispatch held stage verb dispatched unasked =>
    exact intact.skipFailures held stage verb
  | askFailure id frame dispatch held stage verb dispatched endpoint =>
    exact intact.askFailure held stage verb dispatched
  | look id frame dispatch held stage dispatched => exact intact.look held stage dispatched
  | declare id frame dispatch offer recorded declaration held invoked stage =>
    exact intact.declare declaration held invoked stage
  | enterDoor id frame dispatch offer recorded version held invoked stage door =>
    exact intact.enterDoor held invoked stage door
  | deliver id issuer child frame dispatch offer recorded issued reading there issuedBy done held
      invoked stage taken kept =>
    refine intact.handOver there done held ?_ rfl rfl
      (intact.noted there issuedBy done held invoked stage kept)
    rw [stage, done]
    rintro ⟨⟩
  | answer id frame dispatch offer recorded given answer now costMillis listened held invoked stage
      entered body stored =>
    exact intact.replace held rfl rfl
      ((intact.frame id frame held).answer invoked stage body stored now costMillis listened)
  | unoffered id frame dispatch offer recorded given answer listened held invoked stage entered body
      stands =>
    exact intact.replace held rfl rfl ((intact.frame id frame held).unoffered invoked listened)
  | fail id frame dispatch offer recorded error now listened held invoked stage unstored =>
    have kept := intact.frame id frame held
    refine intact.replace held rfl rfl
      (kept.fail invoked stage error listened [] none (kept.failed dispatch) ?_ ?_)
    · intro until_ cached
      cases cached
    · intro _ fact member
      cases member
  | failStored id frame dispatch offer recorded error now listened until_ op held invoked stage
      entered stored =>
    exact intact.failStored error listened held invoked stage stored
  | transrept id frame dispatch offer recorded held describes stage =>
    have kept := intact.frame id frame held
    have bare := (kept.running stage).bare dispatch describes.1 fun invoked =>
      invoked.2.1 describes.2.1
    refine intact.replace held rfl rfl (kept.restaged _ ⟨⟨dispatch, describes⟩, ?_, ?_, ?_⟩)
    · intro fact member
      exact absurd (bare ▸ member) List.not_mem_nil
    · intro fact member
      exact absurd (bare ▸ member) List.not_mem_nil
    · exact fun _ => List.forall_mem_nil _
  | issueTurn id issuer frame offer current doors requested now fresh held stage =>
    exact intact.issueTurn requested now fresh held stage
  | turn id issuer child frame offer current doors issued read answer there issuedBy done held stage
      came kept =>
    refine intact.handOver there done held ?_ rfl rfl
      (intact.turn there issuedBy done held stage came kept)
    rw [stage, done]
    rintro ⟨⟩
  | turnFailed id issuer child frame offer current doors issued read error there issuedBy done held
      stage came lossless kept =>
    refine intact.handOver there done held ?_ rfl rfl
      (intact.turnFailed there issuedBy done held stage came lossless kept)
    rw [stage, done]
    rintro ⟨⟩
  | unparsed id frame offer current doors detail held stage =>
    have kept := intact.frame id frame held
    obtain ⟨dispatch, describes⟩ := (kept.turning stage).describes
    exact intact.replace held rfl rfl (kept.bare _ describes.unwritten
      (fun fact member => ⟨kept.dated fact member, kept.quiet fact member⟩)
      fun fact _ _ => Outcome.owes_of_spoiled fun _ => rfl)
  | describe id frame dispatch offer doors bound rendered now costMillis held describes stage =>
    exact intact.replace held rfl rfl
      ((intact.frame id frame held).described now costMillis describes stage)
  | operate id frame dispatch offer recorded answer now costMillis held dispatched operation stage =>
    exact intact.replace held rfl rfl
      ((intact.frame id frame held).operated answer now costMillis dispatched operation)
  | close id frame op rest issued held stage => exact intact.close held stage

/-- What a run reaches is intact. -/
theorem reached_intact {inner : δ} {state : KernelState δ}
    (reached : KernelReached host care inner state) : Intact host care state :=
  Transitions.kept_by_run (KernelStep host care) (Intact host care)
    (fun _ _ intact step => step_intact intact step) _ _ reached (initial_intact host care inner)

end Ikigai
