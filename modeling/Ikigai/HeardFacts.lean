import Ikigai.FrameMoves

/-!
# What a caller takes over

Whoever hears of a frame's result relies on what was heard and on the frame's own facts. An
invocation's record owes them from then on. A description takes them over with their time
moved, and keeps no more of them than the threads of its last step.
-/

namespace Ikigai

variable {π δ : Type} [CachePolicy π] {host : Host π δ} {care : Care} {state : KernelState δ}

/-- Facts taken over are as well established as they were, and quiet up to the snapshot of
whoever issued the frame, which is no later than its own. -/
theorem Intact.heard (intact : Intact host care state) {id issuer : Nat} {child frame : Frame}
    (there : state.frames.lookup id = some child) (issuedBy : child.parent = some issuer)
    (held : state.frames.lookup issuer = some frame) (heard : Heard) :
    ∀ fact ∈ child.heardFacts heard frame.taken, Dated host care state fact ∧
      (Counts care fact → Quiet (cutsOf state.ops) frame.taken fact) := by
  have kept := intact.frame issuer frame held
  have childKept := intact.frame id child there
  obtain ⟨above, same, earlier⟩ := intact.issuer id child issuer there issuedBy
  obtain rfl : frame = above := Option.some.inj (held.symm.trans same)
  intro fact member
  rcases List.mem_cons.mp member with rfl | member
  · have own : Own frame.taken
        (.own (.heard child.requested) heard.threads heard.expiry frame.taken) := Own.of_about rfl
    obtain ⟨dated, quiet⟩ := kept.own own
    exact ⟨dated, fun _ => quiet⟩
  · obtain ⟨old, inside, rfl⟩ := List.mem_map.mp member
    refine ⟨(childKept.dated old inside).passedOn, ?_⟩
    rintro ⟨full | own, turned⟩
    · exact (childKept.quiet old inside ⟨.inl full, turned⟩).shorter earlier
    · cases own

/-- What was heard of a frame that ended owes the facts taken over, when the collect loses
nothing. -/
theorem Intact.heard_owed (intact : Intact host care state) {id issuer : Nat}
    {child : Frame} {issued : Issued} {reading : Reading}
    (there : state.frames.lookup id = some child) (issuedBy : child.parent = some issuer)
    (done : child.stage = .closing [] issued)
    (lossless : care.collects → LosesNothing child.requested reading issued) (taken : Nat) :
    ∀ fact ∈ child.heardFacts
        (hear child.requested (reading.received issued.result) issued.carried) taken,
      Counts care fact →
        Owed (hear child.requested (reading.received issued.result) issued.carried).expiry
          (hear child.requested (reading.received issued.result) issued.carried).threads fact := by
  have childKept := intact.frame id child there
  have closing := childKept.stage
  rw [done] at closing
  intro fact member counts
  rcases List.mem_cons.mp member with rfl | member
  · exact ⟨fun _ => le_rfl, nofun, .inr fun _ member => member⟩
  · obtain ⟨old, inside, rfl⟩ := List.mem_map.mp member
    rcases counts with ⟨full | own, turned⟩
    · have alone := childKept.upstream (by rw [issuedBy]; rfl)
      have owed := closing.owes alone old inside ⟨.inl full, turned⟩ child.requested reading
        (lossless full)
      exact ⟨owed.sooner, owed.lasts, owed.hangs⟩
    · cases own

/-- What an endpoint says through its invocation. -/
theorem Declaration.kept (declaration : Declaration) (recorded : Recorded) (taken : Nat) :
    Recorded.Within recorded (declaration.apply recorded) ∧
      ∀ fact ∈ declaration.facts taken,
        Owed (declaration.apply recorded).expiry (declaration.apply recorded).threads fact := by
  cases declaration with
  | thread named =>
    refine ⟨recorded.within_step named, ?_⟩
    intro fact member
    obtain rfl := List.mem_singleton.mp member
    exact Owed.of_on fun _ => by simp [Declaration.apply, Recorded.dependsOn]
  | oneShot =>
    refine ⟨recorded.within_meet .always, ?_⟩
    intro fact member
    obtain rfl := List.mem_singleton.mp member
    exact Owed.of_timed (recorded.meet_le .always)
  | failureUntil deadline =>
    refine ⟨⟨le_rfl, fun _ => id⟩, ?_⟩
    intro fact member
    cases member

/-- A sub-request's result in the record of its issuer. -/
theorem Intact.noted (intact : Intact host care state) {id issuer : Nat} {child frame : Frame}
    {dispatch : Dispatch} {offer : Option Offer} {recorded : Recorded} {issued : Issued}
    {reading : Reading} (there : state.frames.lookup id = some child)
    (issuedBy : child.parent = some issuer) (done : child.stage = .closing [] issued)
    (held : state.frames.lookup issuer = some frame) (invoked : frame.invoked dispatch)
    (stage : frame.stage = .running offer recorded)
    (lossless : care.collects → LosesNothing child.requested reading issued) :
    FrameKept host care state
      (frame.note offer
        (recorded.record child.requested (reading.received issued.result) issued.carried)
        (child.heardFacts
          (hear child.requested (reading.received issued.result) issued.carried)
          frame.taken)) := by
  obtain ⟨within, sooner, threads⟩ := recorded.note_keeps
    (hear child.requested (reading.received issued.result) issued.carried)
  rw [Recorded.record_eq]
  refine (intact.frame issuer frame held).note invoked stage within
    (intact.heard there issuedBy held _) ?_
  intro fact member counts
  exact (intact.heard_owed there issuedBy done lossless _ fact member counts).within sooner
    fun _ => threads

/-- A fact whose time is moved is owed as before. -/
theorem Owed.turnedOn {expiry : Expiry} {threads : ThreadSet} {fact : Fact}
    (owed : Owed expiry threads fact) : Owed expiry threads fact.turnedOn where
  sooner := nofun
  lasts := by
    intro _ volatile
    cases moved : fact.extended with
    | true => exact owed.lasts moved volatile
    | false => exact Expiry.eq_always_of_le ((owed.sooner moved).trans_eq volatile)
  hangs := owed.hangs

/-- A fact whose time is moved is owed for good by whatever may be kept. -/
theorem Owed.untimed {expiry : Expiry} {threads : ThreadSet} {fact : Fact}
    (owed : Owed expiry threads fact) (kept : expiry ≠ .always) (moved : fact.extended = true) :
    Owed .never threads fact where
  sooner := fun standing => Bool.noConfusion (standing.symm.trans moved)
  lasts := fun _ volatile => absurd (owed.lasts moved volatile) kept
  hangs := .inr (owed.hangs.resolve_left kept)

/-- A fact that came through a description counts only where no transreption loses anything. -/
theorem turns_of_counts {fact : Fact} (counts : Counts care fact) (turned : fact.turned = true) :
    care.turns :=
  counts.2.resolve_right fun plain => Bool.noConfusion (plain.symm.trans turned)

/-- The facts a description takes over from a step are established and quiet. -/
theorem Intact.turned (intact : Intact host care state) {id issuer : Nat} {child frame : Frame}
    (there : state.frames.lookup id = some child) (issuedBy : child.parent = some issuer)
    (held : state.frames.lookup issuer = some frame) (heard : Heard) :
    ∀ fact ∈ child.turnFacts heard frame.taken ++ frame.facts, Dated host care state fact ∧
      (Counts care fact → Quiet (cutsOf state.ops) frame.taken fact) := by
  intro fact member
  rcases List.mem_append.mp member with fresh | member
  · obtain ⟨old, inside, rfl⟩ := List.mem_map.mp fresh
    obtain ⟨dated, quiet⟩ := intact.heard there issuedBy held heard old inside
    refine ⟨dated.turnedOn, fun counts => quiet ⟨?_, .inl (turns_of_counts counts rfl)⟩⟩
    exact .inl (counts.1.resolve_right Bool.noConfusion)
  · have kept := intact.frame issuer frame held
    exact ⟨kept.dated fact member, kept.quiet fact member⟩

/-- What was heard of a step owes the facts a description takes over from it. -/
theorem Intact.turn_owed (intact : Intact host care state) {id issuer : Nat}
    {child : Frame} {issued : Issued} {reading : Reading}
    (there : state.frames.lookup id = some child) (issuedBy : child.parent = some issuer)
    (done : child.stage = .closing [] issued)
    (lossless : care.collects → LosesNothing child.requested reading issued) (taken : Nat) :
    ∀ fact ∈ child.turnFacts
        (hear child.requested (reading.received issued.result) issued.carried) taken,
      Counts care fact → fact.turned = true ∧ fact.extended = true ∧
        Owed (hear child.requested (reading.received issued.result) issued.carried).expiry
          (hear child.requested (reading.received issued.result) issued.carried).threads fact := by
  intro fact member counts
  obtain ⟨old, inside, rfl⟩ := List.mem_map.mp member
  refine ⟨rfl, rfl, (intact.heard_owed there issuedBy done lossless taken old inside ?_).turnedOn⟩
  exact ⟨.inl (counts.1.resolve_right Bool.noConfusion), .inl (turns_of_counts counts rfl)⟩

omit [CachePolicy π] in
/-- Some thread of a fact about a door was cut, no earlier than the fact was established, by
the time a later version has cut the bindings. -/
theorem InstallKept.revokes {install : Install} (kept : InstallKept host state install) {id : Nat}
    (held : state.installs.lookup id = some install) {fact : Fact}
    (dated : Dated host care state fact) (full : care.collects) {version : Nat}
    (door : fact.about.doorOf = some version) (later : version < install.version) {index : Nat}
    (cut : (bindingsThread, index) ∈ install.made) :
    ∃ thread ∈ fact.threads, ∃ earlier ≤ index, fact.since ≤ earlier ∧
      (cutsOf state.ops)[earlier]? = some thread := by
  cases about : fact.about with
  | door found =>
    rw [about] at door
    obtain rfl : found = version := Option.some.inj door
    have opened := (dated.opened found about).2 id install held later
    rcases dated.hangs found about with space | bindings
    · obtain ⟨earlier, before, made⟩ := kept.ordered index cut
      obtain ⟨after, here⟩ := kept.made _ made
      exact ⟨host.spaceThread, space, earlier, before, opened.trans after, here⟩
    · obtain ⟨after, here⟩ := kept.made _ cut
      exact ⟨bindingsThread, bindings, index, le_rfl, opened.trans after, here⟩
  | behind found =>
    rw [about] at door
    obtain rfl : found = version := Option.some.inj door
    obtain ⟨hangs, closes⟩ := dated.behind found about
    exact ⟨bindingsThread, hangs, index, le_rfl, closes full id install held later index cut,
      (kept.made _ cut).2⟩
  | _ =>
    rw [about] at door
    cases door

/-- Whatever door a step went through, no later version had cut the bindings when the
description began. -/
theorem Intact.closes (intact : Intact host care state) {id issuer : Nat} {child frame : Frame}
    (there : state.frames.lookup id = some child) (issuedBy : child.parent = some issuer)
    (held : state.frames.lookup issuer = some frame) (full : care.collects) :
    ∀ version ∈ doorsOf child.facts, Closes state version frame.taken := by
  have childKept := intact.frame id child there
  obtain ⟨above, same, earlier⟩ := intact.issuer id child issuer there issuedBy
  obtain rfl : frame = above := Option.some.inj (held.symm.trans same)
  intro version member other install installed later index cut
  obtain ⟨fact, inside, door⟩ := List.mem_filterMap.mp member
  split at door
  · cases door
  · rename_i plain
    have counts : Counts care fact := ⟨.inl full, .inr (by simpa using plain)⟩
    have quiet := (childKept.quiet fact inside counts).shorter earlier
    obtain ⟨thread, hangs, first, before, since, here⟩ :=
      (intact.install other install installed).revokes installed (childKept.dated fact inside) full
        door later cut
    by_contra sooner
    have established := index_lt_of_uncut (quiet thread hangs) here (by omega)
    omega

/-- A step that answered, in the description it is for. -/
theorem Intact.turn (intact : Intact host care state) {id issuer : Nat} {child frame : Frame}
    {offer : Option Offer} {awaited : Option Nat} {current : Option Representation}
    {doors : List Nat} {issued : Issued} {read : Except Error (List UInt8)}
    {answer : Representation}
    (there : state.frames.lookup id = some child) (issuedBy : child.parent = some issuer)
    (done : child.stage = .closing [] issued) (held : state.frames.lookup issuer = some frame)
    (stage : frame.stage = .turning offer awaited current doors)
    (came : (Reading.collected read).received issued.result = .ok answer)
    (kept : care.turns → TurnKeeps current answer) :
    FrameKept host care state
      { frame with
        stage := .turning offer none (some answer) (doorsOf child.facts ++ doors)
        facts := child.turnFacts (.answer answer) frame.taken ++ frame.facts } := by
  have frameKept := intact.frame issuer frame held
  have turning := frameKept.turning stage
  have facts := intact.turned there issuedBy held (.answer answer)
  have heard : hear child.requested ((Reading.collected read).received issued.result)
      issued.carried = .answer answer := by
    rw [came]
    rfl
  have lossless : LosesNothing child.requested (.collected read) issued := by
    intro other name carried _ missed
    cases heard.symm.trans missed
  have owed := intact.turn_owed there issuedBy done (fun _ => lossless) frame.taken
  rw [heard] at owed
  refine frameKept.moved _ _ (fun fact member => (facts fact member).1)
    (fun fact member => (facts fact member).2) ⟨turning.describes, ?_, ?_, ?_⟩
  · intro fact member
    rcases List.mem_append.mp member with fresh | earlier
    · obtain ⟨old, _, rfl⟩ := List.mem_map.mp fresh
      exact ⟨rfl, rfl⟩
    · exact turning.marked fact earlier
  · intro fact member counts
    rcases List.mem_append.mp member with fresh | earlier
    · obtain ⟨turned, moved, standing⟩ := owed fact fresh counts
      exact standing.untimed (kept (turns_of_counts counts turned)).1 moved
    · have lost := kept (turns_of_counts counts (turning.marked fact earlier).1)
      exact (turning.owes fact earlier counts).dropped lost.2 _
  · intro full version member
    rcases List.mem_append.mp member with fresh | earlier
    · exact intact.closes there issuedBy held full version fresh
    · exact turning.closes full version earlier

/-- A step that failed, and the description with it. -/
theorem Intact.turnFailed (intact : Intact host care state) {id issuer : Nat}
    {child frame : Frame} {offer : Option Offer} {awaited : Option Nat}
    {current : Option Representation} {doors : List Nat} {issued : Issued}
    {read : Except Error (List UInt8)} {error : Error}
    (there : state.frames.lookup id = some child) (issuedBy : child.parent = some issuer)
    (done : child.stage = .closing [] issued) (held : state.frames.lookup issuer = some frame)
    (stage : frame.stage = .turning offer awaited current doors)
    (came : (Reading.collected read).received issued.result = .error error)
    (lossless : care.collects → LosesNothing child.requested (.collected read) issued)
    (kept : care.turns → BareKeeps child.requested current
      ((Reading.collected read).received issued.result) issued.carried) :
    FrameKept host care state
      (frame.close [] ⟨.error error, .none⟩
        (child.turnFacts
          (hear child.requested ((Reading.collected read).received issued.result)
            issued.carried) frame.taken ++ frame.facts)) := by
  have frameKept := intact.frame issuer frame held
  have turning := frameKept.turning stage
  obtain ⟨dispatch, describes⟩ := turning.describes
  refine frameKept.bare error describes.unwritten (intact.turned there issuedBy held _) ?_
  intro fact member counts
  rcases List.mem_append.mp member with fresh | earlier
  · obtain ⟨turned, moved, owed⟩ :=
      intact.turn_owed there issuedBy done lossless frame.taken fact fresh counts
    exact Outcome.owes_of_bare (kept (turns_of_counts counts turned)) came moved (.inl owed)
  · obtain ⟨turned, moved⟩ := turning.marked fact earlier
    exact Outcome.owes_of_bare (kept (turns_of_counts counts turned)) came moved
      (.inr (turning.owes fact earlier counts))

end Ikigai
