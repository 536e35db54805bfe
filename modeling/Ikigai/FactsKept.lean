import Ikigai.ServedFacts

/-!
# What a run of the kernel keeps

A frame's record owes every fact of the frame while its endpoint runs, what the last step of a
description's transreption answered owes them while it goes on, its result owes them once it
ends, and whatever it files is warranted by them. A step moves one frame or two, adds at most
one cache operation and never takes a fact back, so each of these outlives the steps of the
others.
-/

namespace Ikigai

variable {π δ : Type}

/-- A version of the dynamic space was in force before every later one was swapped in. -/
def Opened (state : KernelState δ) (version since : Nat) : Prop :=
  version ≤ state.space.installs ∧
    ∀ id install, state.installs.lookup id = some install → version < install.version →
      since ≤ install.swapped

/-- No later version than this one has cut the bindings before a number. -/
def Closes (state : KernelState δ) (version since : Nat) : Prop :=
  ∀ id install, state.installs.lookup id = some install → version < install.version →
    ∀ index, (bindingsThread, index) ∈ install.made → since ≤ index

/-- A fact was established by now; one about depth lasts no time at all, one about a read
hangs from the name's own thread, one about a door from a thread a bind cuts, and one about a
door behind a description from the binding thread. -/
structure Dated (host : Host π δ) (care : Care) (state : KernelState δ) (fact : Fact) :
    Prop where
  since : fact.since ≤ state.cuts
  depth : fact.about = .depth → fact.expiry = .always
  reads : ∀ canonical, fact.about = .read canonical → canonical ∈ fact.threads
  hangs : ∀ version, fact.about = .door version →
    host.spaceThread ∈ fact.threads ∨ bindingsThread ∈ fact.threads
  opened : ∀ version, fact.about = .door version → Opened state version fact.since
  behind : ∀ version, fact.about = .behind version →
    bindingsThread ∈ fact.threads ∧ (care.collects → Closes state version fact.since)

/-- Whatever is heard of an issue's result owes a fact, when the collect loses nothing. -/
def Outcome.Owes (issued : Issued) (fact : Fact) : Prop :=
  ∀ requested reading, LosesNothing requested reading issued →
    Owed (hear requested (reading.received issued.result) issued.carried).expiry
      (hear requested (reading.received issued.result) issued.carried).threads fact

/-- While its endpoint runs. -/
structure RunningKept (care : Care) (frame : Frame) (offer : Option Offer)
    (recorded : Recorded) : Prop where
  dispatched : frame.dispatch.isSome = true
  bare : ∀ dispatch, frame.dispatch = some dispatch → ¬frame.invoked dispatch → frame.facts = []
  owes : ∀ fact ∈ frame.facts, Counts care fact → Owed recorded.expiry recorded.threads fact
  offered : ∀ stale, offer = some stale →
    ∃ offered, frame.offered = some offered ∧ offered.held = .answer stale.stored

/-- What a description's transreption hangs from so far. -/
def turnThreads (current : Option Representation) : ThreadSet :=
  current.elim OrderedSet.empty Representation.threads

/-- While a description is transrepted: its facts came through its steps and their time is
moved, what the last step answered owes them, and the doors behind it were in force when it
began, as far as the bindings go. -/
structure TurningKept (care : Care) (state : KernelState δ) (frame : Frame)
    (current : Option Representation) (doors : List Nat) : Prop where
  describes : ∃ dispatch, frame.describes dispatch
  marked : ∀ fact ∈ frame.facts, fact.turned = true ∧ fact.extended = true
  owes : ∀ fact ∈ frame.facts, Counts care fact → Owed .never (turnThreads current) fact
  closes : care.collects → ∀ version ∈ doors, Closes state version frame.taken

/-- Whether the frame is a write its endpoint is to make. -/
def Frame.Writes (frame : Frame) (canonical : Iri) : Prop :=
  frame.verb.isMutating = true ∧ ∃ dispatch, frame.dispatch = some dispatch ∧
    dispatch.operation = false ∧ dispatch.canonical = canonical

/-- While it ends. -/
structure ClosingKept (host : Host π δ) (care : Care) (history : List Thread) (frame : Frame)
    (pending : List CacheOp) (issued : Issued) : Prop where
  owes : frame.incoming = none → ∀ fact ∈ frame.facts, Counts care fact → issued.Owes fact
  answers : ∀ answer, issued.result = .ok answer → ∀ fact ∈ frame.facts, Counts care fact →
    Owed answer.expiry answer.threads fact
  files : ∀ op ∈ pending, ∀ filing, op.filing = some filing →
    Warranted host care history filing ⟨frame.began, frame.facts⟩
  cuts : ∀ op ∈ pending, ∀ thread, op.cutThread = some thread → frame.Writes thread
  writes : ∀ canonical, frame.Writes canonical →
    frame.wrote.isSome = true ∨ ∃ op ∈ pending, op.cutThread = some canonical

def StageKept (host : Host π δ) (care : Care) (state : KernelState δ) (frame : Frame) :
    Stage → Prop
  | .arrived => frame.facts = [] ∧ frame.dispatch = none
  | .admitted => frame.facts = [] ∧ frame.dispatch.isSome = true
  | .checked => frame.facts = [] ∧ frame.dispatch.isSome = true ∧ frame.verb.isCacheable = true
  | .running offer recorded => RunningKept care frame offer recorded
  | .turning _ _ current doors => TurningKept care state frame current doors
  | .closing pending issued => ClosingKept host care (cutsOf state.ops) frame pending issued
  | .delivered => ∀ canonical, frame.Writes canonical → frame.wrote.isSome = true

/-- Something a frame has out of the cache. -/
structure HasFound (host : Host π δ) (care : Care) (state : KernelState δ) (frame : Frame)
    (good : Option Time → Expiry → Prop) (found : FromCache) : Prop where
  stands : ∃ dispatch, frame.dispatch = some dispatch ∧
    Stands host care (cutsOf state.ops) dispatch.key found
  good : good frame.now found.held.expiry
  after : frame.taken ≤ found.cuts
  dated : ∀ fact ∈ found.credit.facts, Dated host care state fact

section Runs

variable [CachePolicy π]

structure FrameKept (host : Host π δ) (care : Care) (state : KernelState δ) (frame : Frame) :
    Prop where
  taken : frame.taken ≤ (ReprCache.after host.policy state.ops).snapshot
  began : frame.taken ≤ frame.began
  counted : frame.began ≤ state.cuts
  dated : ∀ fact ∈ frame.facts, Dated host care state fact
  quiet : ∀ fact ∈ frame.facts, Counts care fact → Quiet (cutsOf state.ops) frame.taken fact
  asked : ∀ dispatch, frame.dispatch = some dispatch →
    host.asked dispatch.key = ⟨frame.verb, dispatch.canonical, dispatch.operation⟩
  door : ∀ dispatch version, frame.dispatch = some dispatch → dispatch.door = some version →
    Opened state version frame.taken
  offered : ∀ offered, frame.offered = some offered →
    HasFound host care state frame RunOut offered
  served : ∀ served, frame.served = some served → HasFound host care state frame GoodAt served
  upstream : frame.parent.isSome = true → frame.incoming = none
  wrote : ∀ index, frame.wrote = some index →
    ∃ canonical, frame.Writes canonical ∧ (cutsOf state.ops)[index]? = some canonical
  stage : StageKept host care state frame frame.stage

/-- A bind's cuts are made after its swap, the space's before the bindings', and none is
forgotten. -/
structure InstallKept (host : Host π δ) (state : KernelState δ) (install : Install) : Prop where
  version : install.version ≤ state.space.installs
  swapped : install.swapped ≤ state.cuts
  made : ∀ cut ∈ install.made, install.swapped ≤ cut.2 ∧
    (cutsOf state.ops)[cut.2]? = some cut.1
  cuts : ∀ thread, thread = host.spaceThread ∨ thread = bindingsThread →
    (∃ index, (thread, index) ∈ install.made) ∨ ∃ op ∈ install.pending, op.cutThread = some thread
  files : ∀ op ∈ install.pending, op.filing = none
  ordered : ∀ index, (bindingsThread, index) ∈ install.made →
    ∃ earlier ≤ index, (host.spaceThread, earlier) ∈ install.made
  queued : ∀ before op rest, install.pending = before ++ op :: rest →
    op.cutThread = some bindingsThread →
      (∃ first ∈ before ++ [op], first.cutThread = some host.spaceThread) ∨
        ∃ index, (host.spaceThread, index) ∈ install.made

structure Intact (host : Host π δ) (care : Care) (state : KernelState δ) : Prop where
  frame : ∀ id frame, state.frames.lookup id = some frame → FrameKept host care state frame
  issuer : ∀ id frame issuer, state.frames.lookup id = some frame → frame.parent = some issuer →
    ∃ above, state.frames.lookup issuer = some above ∧ above.taken ≤ frame.taken
  filed : ∀ filing, LastFiled host.policy state.ops filing →
    Warranted host care (cutsOf state.ops) filing
      (state.credits filing.key filing.held.isFailure)
  credit : ∀ key failure, ∀ fact ∈ (state.credits key failure).facts, Dated host care state fact
  install : ∀ id install, state.installs.lookup id = some install →
    InstallKept host state install

/-- A state that came after another: more operations, and every version still in force
before the later ones. -/
structure Grows (host : Host π δ) (before after : KernelState δ) : Prop where
  ops : ∃ more, cutsOf after.ops = cutsOf before.ops ++ more
  snapshot : (ReprCache.after host.policy before.ops).snapshot ≤
    (ReprCache.after host.policy after.ops).snapshot
  installs : before.space.installs ≤ after.space.installs
  opened : ∀ version since, since ≤ before.cuts → Opened before version since →
    Opened after version since
  closes : ∀ version since, since ≤ before.cuts → Closes before version since →
    Closes after version since

namespace Grows

variable {host : Host π δ} {before after : KernelState δ}

/-- Cuts are counted up, never down. -/
theorem cuts (grows : Grows host before after) : before.cuts ≤ after.cuts := by
  obtain ⟨more, history⟩ := grows.ops
  rw [KernelState.cuts, KernelState.cuts, history, List.length_append]
  exact Nat.le_add_right _ _

/-- The frames are no part of it. -/
theorem of_frames (frames : KeyedMap Nat Frame) (credits : CacheKey → Bool → Credit) :
    Grows host before { before with frames := frames, credits := credits } where
  ops := ⟨[], by simp⟩
  snapshot := le_rfl
  installs := le_rfl
  opened := fun _ _ _ opened => opened
  closes := fun _ _ _ closes => closes

/-- An operation done to the cache makes the run grow. -/
theorem of_op (op : CacheOp) : Grows host before (before.observe op) where
  ops := ⟨_, cutsOf_concat before.ops op⟩
  snapshot := snapshot_mono host.policy before.ops op
  installs := le_rfl
  opened := fun _ _ _ opened => opened
  closes := fun _ _ _ closes => closes

/-- What has grown twice has grown. -/
theorem trans {between : KernelState δ} (first : Grows host before between)
    (second : Grows host between after) : Grows host before after where
  ops := by
    obtain ⟨more, history⟩ := first.ops
    obtain ⟨later, further⟩ := second.ops
    exact ⟨more ++ later, by rw [further, history, List.append_assoc]⟩
  snapshot := first.snapshot.trans second.snapshot
  installs := first.installs.trans second.installs
  opened := fun version since within opened =>
    second.opened version since (within.trans first.cuts) (first.opened version since within opened)
  closes := fun version since within closes =>
    second.closes version since (within.trans first.cuts) (first.closes version since within closes)

/-- What is established stays so. -/
theorem dated (grows : Grows host before after) {care : Care} {fact : Fact}
    (dated : Dated host care before fact) : Dated host care after fact where
  since := dated.since.trans grows.cuts
  depth := dated.depth
  reads := dated.reads
  hangs := dated.hangs
  opened := fun version door => grows.opened version _ dated.since (dated.opened version door)
  behind := fun version door => ⟨(dated.behind version door).1, fun full =>
    grows.closes version _ dated.since ((dated.behind version door).2 full)⟩

/-- What a frame found stays as it was found. -/
theorem found (grows : Grows host before after) {care : Care} {frame : Frame}
    {good : Option Time → Expiry → Prop} {found : FromCache}
    (has : HasFound host care before frame good found) :
    HasFound host care after frame good found where
  stands := by
    obtain ⟨dispatch, dispatched, stands⟩ := has.stands
    obtain ⟨more, history⟩ := grows.ops
    exact ⟨dispatch, dispatched, history ▸ stands.longer more⟩
  good := has.good
  after := has.after
  dated := fun fact member => grows.dated (has.dated fact member)

/-- A stage that was kept stays so as the run grows. -/
theorem stage (grows : Grows host before after) {care : Care} {frame : Frame} {stage : Stage}
    (within : frame.taken ≤ before.cuts) (kept : StageKept host care before frame stage) :
    StageKept host care after frame stage := by
  cases stage with
  | turning offer awaited current doors =>
    exact ⟨kept.describes, kept.marked, kept.owes, fun full version member =>
      grows.closes version _ within (kept.closes full version member)⟩
  | closing pending issued =>
    obtain ⟨more, history⟩ := grows.ops
    exact { kept with
      files := fun op member filing offered =>
        history ▸ (kept.files op member filing offered).longer more }
  | arrived => exact kept
  | admitted => exact kept
  | checked => exact kept
  | running offer recorded => exact kept
  | delivered => exact kept

/-- A frame that was kept stays so. -/
theorem frame (grows : Grows host before after) {care : Care} {frame : Frame}
    (kept : FrameKept host care before frame) : FrameKept host care after frame where
  taken := kept.taken.trans grows.snapshot
  began := kept.began
  counted := kept.counted.trans grows.cuts
  dated := fun fact member => grows.dated (kept.dated fact member)
  quiet := by
    intro fact member counts
    obtain ⟨more, history⟩ := grows.ops
    rw [history]
    exact (kept.quiet fact member counts).longer (kept.began.trans kept.counted) more
  asked := kept.asked
  door := fun dispatch version dispatched door => grows.opened version _
    (kept.began.trans kept.counted) (kept.door dispatch version dispatched door)
  offered := fun offered held => grows.found (kept.offered offered held)
  served := fun served held => grows.found (kept.served served held)
  upstream := kept.upstream
  wrote := by
    intro index wrote
    obtain ⟨canonical, writes, cut⟩ := kept.wrote index wrote
    obtain ⟨more, history⟩ := grows.ops
    refine ⟨canonical, writes, ?_⟩
    rw [history, List.getElem?_append_left (List.getElem?_eq_some_iff.mp cut).1]
    exact cut
  stage := grows.stage (kept.began.trans kept.counted) kept.stage

/-- So does what is about to be installed. -/
theorem install (grows : Grows host before after) {install : Install}
    (kept : InstallKept host before install) : InstallKept host after install where
  version := kept.version.trans grows.installs
  swapped := kept.swapped.trans grows.cuts
  made := by
    intro cut member
    obtain ⟨later, made⟩ := kept.made cut member
    obtain ⟨more, history⟩ := grows.ops
    refine ⟨later, ?_⟩
    rw [history, List.getElem?_append_left (List.getElem?_eq_some_iff.mp made).1]
    exact made
  cuts := kept.cuts
  files := kept.files
  ordered := kept.ordered
  queued := kept.queued

end Grows

/-- A run that begins is intact: nothing is under way. -/
theorem initial_intact (host : Host π δ) (care : Care) (inner : δ) :
    Intact host care (KernelState.initial inner) where
  frame := fun _ _ held => nomatch held
  issuer := fun _ _ _ held => nomatch held
  filed := by
    rintro filing ⟨early, op, late, split, _⟩
    cases early <;> cases split
  credit := fun _ _ _ member => nomatch member
  install := fun _ _ held => nomatch held

namespace Intact

variable {host : Host π δ} {care : Care} {state : KernelState δ}

/-- Replacing a frame by one that is kept. -/
theorem set (intact : Intact host care state) {id : Nat} {frame : Frame}
    (kept : FrameKept host care state frame)
    (issuer : ∀ issuer, frame.parent = some issuer →
      ∃ above, state.frames.lookup issuer = some above ∧ above.taken ≤ frame.taken)
    (same : ∀ old, state.frames.lookup id = some old → frame.taken = old.taken) :
    Intact host care (state.set id frame) where
  frame := by
    intro other found held
    rw [KernelState.set, KeyedMap.lookup_insert_eq] at held
    have grows : Grows host state (state.set id frame) := Grows.of_frames _ _
    split at held
    · cases held
      exact grows.frame kept
    · exact grows.frame (intact.frame other found held)
  issuer := by
    intro other found above held issued
    have lower : ∃ frame', state.frames.lookup above = some frame' ∧
        frame'.taken ≤ found.taken := by
      rw [KernelState.set, KeyedMap.lookup_insert_eq] at held
      split at held
      · cases held
        exact issuer above issued
      · exact intact.issuer other found above held issued
    obtain ⟨issuing, there, earlier⟩ := lower
    simp only [KernelState.set, KeyedMap.lookup_insert_eq]
    split
    · rename_i here
      exact ⟨frame, rfl, (same issuing (here ▸ there)).trans_le earlier⟩
    · exact ⟨issuing, there, earlier⟩
  filed := intact.filed
  credit := fun key failure fact member =>
    (Grows.of_frames _ _ : Grows host state (state.set id frame)).dated
      (intact.credit key failure fact member)
  install := fun other install held =>
    (Grows.of_frames _ _ : Grows host state (state.set id frame)).install
      (intact.install other install held)

/-- What was taken is credited. -/
theorem credits_of_filed (policy : π) (state : KernelState δ) (op : CacheOp) (credit : Credit)
    (filing : Filing) (offered : op.filing = some filing)
    (took : ((ReprCache.after policy state.ops).perform op).2.took = true) :
    (state.perform policy op credit).credits filing.key filing.held.isFailure = credit := by
  simp only [KernelState.perform, offered, took, and_self, if_true]

/-- An operation that files nothing for a key leaves what its entry is credited with. -/
theorem credits_of_unfiled (policy : π) (state : KernelState δ) (op : CacheOp) (credit : Credit)
    (key : CacheKey) (failure : Bool)
    (other : ¬Files (ReprCache.after policy state.ops) op key failure) :
    (state.perform policy op credit).credits key failure = state.credits key failure := by
  simp only [KernelState.perform]
  cases offered : op.filing with
  | none => rfl
  | some filing =>
    refine if_neg ?_
    rintro ⟨took, rfl, rfl⟩
    exact other ⟨filing, offered, rfl, rfl, took⟩

/-- A cache operation, when the credit warrants what it files. -/
theorem perform (intact : Intact host care state) (op : CacheOp) (credit : Credit)
    (warranted : ∀ filing, op.filing = some filing →
      Warranted host care (cutsOf state.ops) filing credit)
    (dated : ∀ fact ∈ credit.facts, Dated host care state fact) :
    Intact host care (state.perform host.policy op credit) := by
  have grows : Grows host state (state.perform host.policy op credit) :=
    (Grows.of_op op).trans (Grows.of_frames _ _)
  have history : cutsOf (state.perform host.policy op credit).ops =
      cutsOf state.ops ++ op.cutThread.toList := cutsOf_concat state.ops op
  refine ⟨?_, ?_, ?_, ?_, ?_⟩
  · intro id frame held
    exact grows.frame (intact.frame id frame held)
  · exact intact.issuer
  · intro filing last
    rw [history]
    rcases last.concat_cases with ⟨offered, took⟩ | ⟨earlier, other⟩
    · rw [credits_of_filed host.policy state op credit filing offered took]
      exact (warranted filing offered).longer _
    · rw [credits_of_unfiled host.policy state op credit _ _ other]
      exact (intact.filed filing earlier).longer _
  · intro key failure fact member
    apply grows.dated
    simp only [KernelState.perform] at member
    split at member
    · exact intact.credit key failure fact member
    · split at member
      · exact dated fact member
      · exact intact.credit key failure fact member
  · intro id install held
    exact grows.install (intact.install id install held)

/-- An operation that files nothing is only observed. -/
theorem perform_of_quiet (policy : π) (state : KernelState δ) (op : CacheOp) (credit : Credit)
    (files : op.filing = none) : state.perform policy op credit = state.observe op := by
  simp only [KernelState.perform, files, KernelState.observe]

/-- A cache operation that files nothing. -/
theorem observe (intact : Intact host care state) (op : CacheOp) (files : op.filing = none) :
    Intact host care (state.observe op) := by
  rw [← perform_of_quiet host.policy state op ⟨0, []⟩ files]
  exact intact.perform op _ (fun filing offered => by rw [files] at offered; cases offered)
    fun _ member => nomatch member

end Intact

end Runs

end Ikigai
