import Ikigai.KernelRuns

/-!
# Driving the kernel

A step names the frame it moves and what the outside contributes to it; everything else is
computed. Driving the kernel through a list of moves gives a run of it, or nothing when a
move does not apply.
-/

namespace Ikigai

variable {π δ : Type}

/-- One step, by what is not determined by the state. -/
inductive Move (δ : Type) where
  | hosted (op : CacheOp)
  | offered (id : Nat) (candidate : Candidate δ) (objection : Option Text) (now : Option Time)
      (listened : Bool × Bool)
  | cutBound (id : Nat)
  | arrive (id : Nat) (parent : Option Nat) (requested : Iri) (verb : Verb) (buffer : Bool)
      (incoming : Option Provenance) (now : Option Time)
  | refuse (id : Nat) (error : Error)
  | admitted (id : Nat) (canonical : Iri) (key : CacheKey) (operation through : Bool)
  | enter (id : Nat)
  | skipFailures (id : Nat)
  | askFailure (id : Nat)
  | look (id : Nat)
  | declare (id : Nat) (declaration : Declaration)
  | enterDoor (id : Nat)
  | deliver (id : Nat) (reading : Reading)
  | answer (id : Nat) (given : Representation) (now : Option Time) (listened : Bool)
  | fail (id : Nat) (error : Error) (now : Option Time) (listened : Bool)
  | transrept (id : Nat)
  | issueTurn (id issuer : Nat) (requested : Iri) (now : Option Time)
  | turn (id : Nat) (read : Except Error (List UInt8))
  | describe (id : Nat) (bound : Expiry) (rendered : Representation) (now : Option Time)
  | close (id : Nat)

/-- Whether a collect loses nothing. -/
def losesNothing (requested : Iri) (reading : Reading) (issued : Issued) : Bool :=
  match issued.result, hear requested (reading.received issued.result) issued.carried with
  | .ok answer, .miss name _ =>
    decide (answer.expiry = .never) && answer.threads.items.all fun thread => decide (thread = name)
  | _, _ => true

/-- A reading that was checked to lose nothing loses nothing. -/
theorem loses_nothing_of (requested : Iri) (reading : Reading) (issued : Issued)
    (kept : losesNothing requested reading issued = true) :
    LosesNothing requested reading issued := by
  intro answer name carried came missed
  simp only [losesNothing, came] at kept missed
  rw [missed] at kept
  simp only [Bool.and_eq_true, decide_eq_true_eq, List.all_eq_true] at kept
  rintro (timed | ⟨thread, member, other⟩)
  · exact timed kept.1
  · exact other (kept.2 thread member)

/-- Whether a step that answered loses nothing. -/
def turnKeeps (current : Option Representation) (answer : Representation) : Bool :=
  decide (answer.expiry ≠ .always) && current.all fun earlier => earlier.threads.items.isEmpty

/-- A turn that was checked to keep what it turns keeps it. -/
theorem turn_keeps_of (current : Option Representation) (answer : Representation)
    (kept : turnKeeps current answer = true) : TurnKeeps current answer := by
  simp only [turnKeeps, Bool.and_eq_true, decide_eq_true_eq] at kept
  refine ⟨kept.1, ?_⟩
  rintro earlier rfl thread member
  have none : thread ∈ earlier.threads.items := member
  rw [List.isEmpty_iff.mp kept.2] at none
  cases none

/-- Whether a step that failed loses nothing. -/
def bareKeeps (requested : Iri) (current : Option Representation)
    (result : Except Error Representation) (carried : Dependencies) : Bool :=
  match hear requested result carried with
  | .miss name depended =>
    decide (result = .error (.unresolved name)) && decide (depended.expiry ≠ .always) &&
      (depended.threads.items.all fun thread => decide (thread = name)) &&
      current.all fun earlier => earlier.threads.items.isEmpty
  | _ => true

/-- A bare answer that was checked keeps what it was made from. -/
theorem bare_keeps_of (requested : Iri) (current : Option Representation)
    (result : Except Error Representation) (carried : Dependencies)
    (kept : bareKeeps requested current result carried = true) :
    BareKeeps requested current result carried := by
  intro name depended missed
  simp only [bareKeeps, missed, Bool.and_eq_true, decide_eq_true_eq, List.all_eq_true] at kept
  obtain ⟨⟨⟨named, lasts⟩, alone⟩, dropped⟩ := kept
  refine ⟨named, lasts, alone, ?_⟩
  rintro earlier rfl thread member
  have none : thread ∈ earlier.threads.items := member
  rw [List.isEmpty_iff.mp dropped] at none
  cases none

/-- Whether a frame's endpoint runs. -/
def Frame.isInvoked (frame : Frame) : Option Dispatch :=
  frame.dispatch.filter fun dispatch => decide (frame.verb ≠ .«meta») && !dispatch.operation

/-- A frame that was checked to be invoked is. -/
theorem Frame.invoked_of {frame : Frame} {dispatch : Dispatch}
    (invoked : frame.isInvoked = some dispatch) : frame.invoked dispatch := by
  obtain ⟨dispatched, runs⟩ := Option.filter_eq_some_iff.mp invoked
  simp only [Bool.and_eq_true, decide_eq_true_eq, Bool.not_eq_true'] at runs
  exact ⟨dispatched, runs.1, runs.2⟩

/-- Whether the kernel answers a frame with a description. -/
def Frame.isDescribed (frame : Frame) : Option Dispatch :=
  frame.dispatch.filter fun dispatch => decide (frame.verb = .«meta») && !dispatch.operation

/-- A frame that was checked to describe does. -/
theorem Frame.describes_of {frame : Frame} {dispatch : Dispatch}
    (described : frame.isDescribed = some dispatch) : frame.describes dispatch := by
  obtain ⟨dispatched, describes⟩ := Option.filter_eq_some_iff.mp described
  simp only [Bool.and_eq_true, decide_eq_true_eq, Bool.not_eq_true'] at describes
  exact ⟨dispatched, describes.1, describes.2⟩

/-- Whether the door a frame was resolved to was entered. -/
def Frame.hasEntered (frame : Frame) (dispatch : Dispatch) : Bool :=
  dispatch.door.all fun version =>
    frame.facts.any fun fact => decide (fact.about = .door version ∧ fact.inherited = false)

/-- A frame that was checked to have entered has. -/
theorem Frame.entered_of {frame : Frame} {dispatch : Dispatch}
    (entered : frame.hasEntered dispatch = true) : frame.entered dispatch := by
  intro version door
  rw [Frame.hasEntered, door] at entered
  obtain ⟨fact, member, about⟩ := List.any_eq_true.mp entered
  exact ⟨fact, member, of_decide_eq_true about⟩

section Drive

variable [CachePolicy π]

/-- The state after a move, when it applies. -/
def drive (host : Host π δ) (collects turns : Bool) (state : KernelState δ) :
    Move δ → Option (KernelState δ)
  | .hosted op => if op.filing.isNone then some (state.observe op) else none
  | .offered id candidate objection now listened =>
    match host.binder.verdict objection candidate, state.installs.lookup id with
    | .error _, _ =>
      some { state with space := state.space.offered host.binder objection now candidate }
    | .ok _, none =>
      some (state.bound host.binder host.spaceThread id candidate objection now listened)
    | .ok _, some _ => none
  | .cutBound id =>
    match state.installs.lookup id with
    | some install =>
      match install.pending with
      | op :: rest =>
        some { state.observe op with
          installs := state.installs.insert id
            { install with
              pending := rest
              made := op.cutThread.toList.map (fun thread => (thread, state.cuts)) ++
                install.made } }
      | [] => none
    | none => none
  | .arrive id parent requested verb buffer incoming now =>
    match state.frames.lookup id, parent with
    | some _, _ => none
    | none, none => some (state.arrive host.policy id none requested verb buffer incoming now)
    | none, some issuer =>
      match state.frames.lookup issuer with
      | some frame =>
        match frame.isInvoked, frame.stage, incoming with
        | some _, .running _ _, none =>
          some (state.arrive host.policy id (some issuer) requested verb buffer none now)
        | _, _, _ => none
      | none => none
  | .refuse id error =>
    match state.frames.lookup id with
    | some frame =>
      match frame.stage with
      | .arrived =>
        some (state.set id
          (frame.close [] ⟨.error error, .none⟩
            (refusalFacts error state.space.installs frame.taken)))
      | _ => none
    | none => none
  | .admitted id canonical key operation through =>
    match state.frames.lookup id with
    | some frame =>
      match frame.stage with
      | .arrived =>
        if host.asked key = ⟨frame.verb, canonical, operation⟩ then
          some (state.set id { frame with
            dispatch := some ⟨canonical, key, operation,
              if through then some state.space.installs else none⟩
            stage := .admitted })
        else none
      | _ => none
    | none => none
  | .enter id =>
    match state.frames.lookup id with
    | some frame =>
      match frame.stage, frame.verb.isCacheable with
      | .admitted, false => some (state.set id { frame with stage := .running none .empty })
      | _, _ => none
    | none => none
  | .skipFailures id =>
    match state.frames.lookup id with
    | some frame =>
      match frame.stage, frame.verb.isCacheable, frame.dispatch with
      | .admitted, true, some dispatch =>
        if dispatch.operation ∨ (ReprCache.after host.policy state.ops).failedOnce = false then
          some (state.set id { frame with stage := .checked })
        else none
      | _, _, _ => none
    | none => none
  | .askFailure id =>
    match state.frames.lookup id with
    | some frame =>
      match frame.stage, frame.verb.isCacheable, frame.dispatch with
      | .admitted, true, some dispatch =>
        if dispatch.operation = false then
          some ((state.observe (.getFailure dispatch.key frame.now frame.incoming)).set id
            (frame.afterFailure (state.credits dispatch.key true) state.cuts
              ((ReprCache.after host.policy state.ops).getFailure dispatch.key frame.now
                frame.incoming).2))
        else none
      | _, _, _ => none
    | none => none
  | .look id =>
    match state.frames.lookup id with
    | some frame =>
      match frame.stage, frame.dispatch with
      | .checked, some dispatch =>
        some ((state.observe (.lookup dispatch.key frame.now frame.buffer frame.incoming
            (!dispatch.operation))).set id
          (frame.afterLookup (state.credits dispatch.key false) state.cuts
            ((ReprCache.after host.policy state.ops).lookup dispatch.key frame.now frame.buffer
              frame.incoming (!dispatch.operation)).2))
      | _, _ => none
    | none => none
  | .declare id declaration =>
    match state.frames.lookup id with
    | some frame =>
      match frame.stage, frame.isInvoked with
      | .running offer recorded, some _ =>
        some (state.set id
          (frame.note offer (declaration.apply recorded) (declaration.facts frame.taken)))
      | _, _ => none
    | none => none
  | .enterDoor id =>
    match state.frames.lookup id with
    | some frame =>
      match frame.stage, frame.isInvoked with
      | .running offer recorded, some dispatch =>
        match dispatch.door with
        | some version =>
          some (state.set id (frame.note offer (recorded.dependsOn host.spaceThread)
            [Fact.on (.door version) host.spaceThread frame.taken]))
        | none => none
      | _, _ => none
    | none => none
  | .deliver id reading =>
    match state.frames.lookup id with
    | some child =>
      match child.stage, child.parent with
      | .closing [] issued, some issuer =>
        match state.frames.lookup issuer with
        | some frame =>
          match frame.stage, frame.isInvoked with
          | .running offer recorded, some _ =>
            if (reading = .body ↔ child.buffer = false) ∧
                (collects = true → losesNothing child.requested reading issued = true) then
              some ((state.set id { child with stage := .delivered }).set issuer
                (frame.note offer
                  (recorded.record child.requested (reading.received issued.result) issued.carried)
                  (child.heardFacts
                    (hear child.requested (reading.received issued.result) issued.carried)
                    frame.taken)))
            else none
          | _, _ => none
        | none => none
      | _, _ => none
    | none => none
  | .answer id given now listened =>
    match state.frames.lookup id with
    | some frame =>
      match frame.stage, frame.isInvoked with
      | .running offer recorded, some dispatch =>
        match refreshed offer given with
        | some answer =>
          if answer.revalidated = false ∧ frame.hasEntered dispatch = true then
            some (state.set id
              (frame.close
                (answerOps frame.verb listened dispatch offer now
                  (settled dispatch.canonical recorded frame.incoming answer) frame.taken none
                  frame.incoming)
                ⟨.ok (settled dispatch.canonical recorded frame.incoming answer), .none⟩
                (answerFacts frame dispatch offer given
                  (settled dispatch.canonical recorded frame.incoming answer))))
          else none
        | none => none
      | _, _ => none
    | none => none
  | .fail id error now listened =>
    match state.frames.lookup id with
    | some frame =>
      match frame.stage, frame.isInvoked with
      | .running offer recorded, some dispatch =>
        match failureStore host.ceiling frame dispatch recorded error now with
        | none =>
          some (state.set id
            (frame.close
              (writeCut frame.verb listened dispatch.canonical ++ discardOps dispatch.key offer)
              ⟨.error error, recorded.failureDependencies dispatch.canonical⟩
              (failureFacts frame dispatch)))
        | some (until_, op) =>
          if frame.hasEntered dispatch = true then
            some ((state.perform host.policy op
                ⟨frame.began, standingFacts host.ceiling frame recorded now ++
                  failureFacts frame dispatch⟩).set id
              (frame.close
                (writeCut frame.verb listened dispatch.canonical ++ discardOps dispatch.key offer)
                ⟨.error error, failedDependencies (recorded.failureDependencies dispatch.canonical)
                  (if ((ReprCache.after host.policy state.ops).perform op).2.took = true then
                    some until_ else none)⟩
                (if ((ReprCache.after host.policy state.ops).perform op).2.took = true then
                    standingFacts host.ceiling frame recorded now ++ failureFacts frame dispatch
                  else failureFacts frame dispatch)))
          else none
      | _, _ => none
    | none => none
  | .transrept id =>
    match state.frames.lookup id with
    | some frame =>
      match frame.stage, frame.isDescribed with
      | .running offer _, some _ =>
        some (state.set id { frame with stage := .turning offer none none [] })
      | _, _ => none
    | none => none
  | .issueTurn id issuer requested now =>
    match state.frames.lookup id, state.frames.lookup issuer with
    | none, some frame =>
      match frame.stage with
      | .turning offer none current doors =>
        some ((state.arrive host.policy id (some issuer) requested .source true none now).set issuer
          { frame with stage := .turning offer (some id) current doors })
      | _ => none
    | _, _ => none
  | .turn id read =>
    match state.frames.lookup id with
    | some child =>
      match child.stage, child.parent with
      | .closing [] issued, some issuer =>
        match state.frames.lookup issuer with
        | some frame =>
          match frame.stage with
          | .turning offer (some awaited) current doors =>
            if awaited = id then
              match (Reading.collected read).received issued.result with
              | .ok answer =>
                if turns = true → turnKeeps current answer = true then
                  some ((state.set id { child with stage := .delivered }).set issuer
                    { frame with
                      stage := .turning offer none (some answer) (doorsOf child.facts ++ doors)
                      facts := child.turnFacts (.answer answer) frame.taken ++ frame.facts })
                else none
              | .error error =>
                if (collects = true →
                      losesNothing child.requested (.collected read) issued = true) ∧
                    (turns = true → bareKeeps child.requested current
                      ((Reading.collected read).received issued.result) issued.carried = true) then
                  some ((state.set id { child with stage := .delivered }).set issuer
                    (frame.close [] ⟨.error error, .none⟩
                      (child.turnFacts
                        (hear child.requested ((Reading.collected read).received issued.result)
                          issued.carried) frame.taken ++ frame.facts)))
                else none
            else none
          | _ => none
        | none => none
      | _, _ => none
    | none => none
  | .describe id bound rendered now =>
    match state.frames.lookup id with
    | some frame =>
      match frame.stage, frame.isDescribed with
      | .running offer _, some dispatch =>
        some (state.set id
          (frame.close
            (answerOps frame.verb false dispatch offer now (describedFace bound rendered)
              frame.taken none frame.incoming)
            ⟨.ok (describedFace bound rendered), .none⟩
            (describedFacts dispatch.door [] bound frame.taken ++ frame.facts)))
      | .turning offer none (some last) doors, some dispatch =>
        if rendered = last then
          some (state.set id
            (frame.close
              (answerOps frame.verb false dispatch offer now (describedFace bound rendered)
                frame.taken none frame.incoming)
              ⟨.ok (describedFace bound rendered), .none⟩
              (describedFacts dispatch.door doors bound frame.taken ++ frame.facts)))
        else none
      | _, _ => none
    | none => none
  | .close id =>
    match state.frames.lookup id with
    | some frame =>
      match frame.stage with
      | .closing (op :: rest) issued =>
        some ((state.perform host.policy op ⟨frame.began, frame.facts⟩).set id
          { frame with
            stage := .closing rest issued
            wrote := if op.cutThread.isSome then some state.cuts else frame.wrote })
      | _ => none
    | none => none

section Steps

variable {host : Host π δ} {collects turns : Bool} {before after : KernelState δ}

/-- A use of the cache from outside. -/
theorem drive_hosted (op : CacheOp)
    (driven : drive host collects turns before (.hosted op) = some after) :
    KernelStep host ⟨collects = true, turns = true⟩ before after := by
  unfold drive at driven
  simp only [Option.ite_none_right_eq_some, Option.isNone_iff_eq_none] at driven
  obtain ⟨files, ⟨⟩⟩ := driven
  exact .hosted before op files

/-- A candidate, refused or bound. -/
theorem drive_offered (id : Nat) (candidate : Candidate δ) (objection : Option Text)
    (now : Option Time) (listened : Bool × Bool)
    (driven : drive host collects turns before (.offered id candidate objection now listened) =
      some after) :
    KernelStep host ⟨collects = true, turns = true⟩ before after := by
  unfold drive at driven
  dsimp only at driven
  split at driven
  · rename_i refusal refused
    cases driven
    exact .refuseBind before candidate objection now _ refused
  · rename_i declared accepted fresh
    cases driven
    exact .bind before id candidate objection now listened _ fresh accepted
  · cases driven

/-- The next cut of a bind. -/
theorem drive_cut_bound (id : Nat)
    (driven : drive host collects turns before (.cutBound id) = some after) :
    KernelStep host ⟨collects = true, turns = true⟩ before after := by
  unfold drive at driven
  dsimp only at driven
  split at driven
  · rename_i install held
    split at driven
    · rename_i op rest next
      cases driven
      exact .cutBound before id install op rest held next
    · cases driven
  · cases driven

/-- A request of the host's, or of an invocation that runs. -/
theorem drive_arrive (id : Nat) (parent : Option Nat) (requested : Iri) (verb : Verb)
    (buffer : Bool) (incoming : Option Provenance) (now : Option Time)
    (driven : drive host collects turns before
      (.arrive id parent requested verb buffer incoming now) = some after) :
    KernelStep host ⟨collects = true, turns = true⟩ before after := by
  unfold drive at driven
  dsimp only at driven
  split at driven
  · cases driven
  · rename_i fresh
    cases driven
    exact .arrive before id none requested verb buffer incoming now fresh nofun
  · rename_i issuer fresh
    split at driven
    · rename_i frame held
      split at driven
      · rename_i dispatch offer recorded invoked running
        cases driven
        refine .arrive before id (some issuer) requested verb buffer none now fresh ?_
        rintro _ ⟨⟩
        exact ⟨rfl, frame, dispatch, offer, recorded, held, Frame.invoked_of invoked, running⟩
      · cases driven
    · cases driven

/-- A refusal before anything was entered. -/
theorem drive_refuse (id : Nat) (error : Error)
    (driven : drive host collects turns before (.refuse id error) = some after) :
    KernelStep host ⟨collects = true, turns = true⟩ before after := by
  unfold drive at driven
  dsimp only at driven
  split at driven
  · rename_i frame held
    split at driven
    · rename_i stage
      cases driven
      exact .refuse before id frame error held (.inl stage)
    · cases driven
  · cases driven

/-- A name resolved and admitted. -/
theorem drive_admitted (id : Nat) (canonical : Iri) (key : CacheKey) (operation through : Bool)
    (driven : drive host collects turns before (.admitted id canonical key operation through) =
      some after) :
    KernelStep host ⟨collects = true, turns = true⟩ before after := by
  unfold drive at driven
  dsimp only at driven
  split at driven
  · rename_i frame held
    split at driven
    · rename_i stage
      split at driven
      · rename_i stands
        cases driven
        refine .resolve before id frame _ held stage stands ?_
        cases through
        · exact .inl rfl
        · exact .inr rfl
      · cases driven
    · cases driven
  · cases driven

/-- A verb that is never cached. -/
theorem drive_enter (id : Nat)
    (driven : drive host collects turns before (.enter id) = some after) :
    KernelStep host ⟨collects = true, turns = true⟩ before after := by
  unfold drive at driven
  dsimp only at driven
  split at driven
  · rename_i frame held
    split at driven
    · rename_i stage verb
      cases driven
      exact .enter before id frame held stage verb
    · cases driven
  · cases driven

/-- Failures that are not asked. -/
theorem drive_skip_failures (id : Nat)
    (driven : drive host collects turns before (.skipFailures id) = some after) :
    KernelStep host ⟨collects = true, turns = true⟩ before after := by
  unfold drive at driven
  dsimp only at driven
  split at driven
  · rename_i frame held
    split at driven
    · rename_i dispatch stage verb dispatched
      split at driven
      · rename_i unasked
        cases driven
        exact .skipFailures before id frame dispatch held stage verb dispatched unasked
      · cases driven
    · cases driven
  · cases driven

/-- Failures that are asked. -/
theorem drive_ask_failure (id : Nat)
    (driven : drive host collects turns before (.askFailure id) = some after) :
    KernelStep host ⟨collects = true, turns = true⟩ before after := by
  unfold drive at driven
  dsimp only at driven
  split at driven
  · rename_i frame held
    split at driven
    · rename_i dispatch stage verb dispatched
      split at driven
      · rename_i endpoint
        cases driven
        exact .askFailure before id frame dispatch held stage verb dispatched endpoint
      · cases driven
    · cases driven
  · cases driven

/-- A lookup. -/
theorem drive_look (id : Nat)
    (driven : drive host collects turns before (.look id) = some after) :
    KernelStep host ⟨collects = true, turns = true⟩ before after := by
  unfold drive at driven
  dsimp only at driven
  split at driven
  · rename_i frame held
    split at driven
    · rename_i dispatch stage dispatched
      cases driven
      exact .look before id frame dispatch held stage dispatched
    · cases driven
  · cases driven

/-- What an endpoint says through its invocation. -/
theorem drive_declare (id : Nat) (declaration : Declaration)
    (driven : drive host collects turns before (.declare id declaration) = some after) :
    KernelStep host ⟨collects = true, turns = true⟩ before after := by
  unfold drive at driven
  dsimp only at driven
  split at driven
  · rename_i frame held
    split at driven
    · rename_i offer recorded dispatch stage invoked
      cases driven
      exact .declare before id frame dispatch offer recorded declaration held
        (Frame.invoked_of invoked) stage
    · cases driven
  · cases driven

/-- A door of the dynamic space. -/
theorem drive_enter_door (id : Nat)
    (driven : drive host collects turns before (.enterDoor id) = some after) :
    KernelStep host ⟨collects = true, turns = true⟩ before after := by
  unfold drive at driven
  dsimp only at driven
  split at driven
  · rename_i frame held
    split at driven
    · rename_i offer recorded dispatch stage invoked
      split at driven
      · rename_i version door
        cases driven
        exact .enterDoor before id frame dispatch offer recorded version held
          (Frame.invoked_of invoked) stage door
      · cases driven
    · cases driven
  · cases driven

/-- A sub-request's result in its invocation. -/
theorem drive_deliver (id : Nat) (reading : Reading)
    (driven : drive host collects turns before (.deliver id reading) = some after) :
    KernelStep host ⟨collects = true, turns = true⟩ before after := by
  unfold drive at driven
  dsimp only at driven
  split at driven
  · rename_i child there
    split at driven
    · rename_i issued issuer done issuedBy
      split at driven
      · rename_i frame held
        split at driven
        · rename_i offer recorded dispatch stage invoked
          split at driven
          · rename_i may
            cases driven
            exact .deliver before id issuer child frame dispatch offer recorded issued reading
              there issuedBy done held (Frame.invoked_of invoked) stage may.1
              fun full => loses_nothing_of _ _ _ (may.2 full)
          · cases driven
        · cases driven
      · cases driven
    · cases driven
  · cases driven

/-- An endpoint's answer. -/
theorem drive_answer (id : Nat) (given : Representation) (now : Option Time) (listened : Bool)
    (driven : drive host collects turns before (.answer id given now listened) = some after) :
    KernelStep host ⟨collects = true, turns = true⟩ before after := by
  unfold drive at driven
  dsimp only at driven
  split at driven
  · rename_i frame held
    split at driven
    · rename_i offer recorded dispatch stage invoked
      split at driven
      · rename_i answer body
        split at driven
        · rename_i stored
          cases driven
          exact .answer before id frame dispatch offer recorded given answer now none listened
            held (Frame.invoked_of invoked) stage (Frame.entered_of stored.2) body stored.1
        · cases driven
      · cases driven
    · cases driven
  · cases driven

/-- An endpoint's failure, cached or not. -/
theorem drive_fail (id : Nat) (error : Error) (now : Option Time) (listened : Bool)
    (driven : drive host collects turns before (.fail id error now listened) = some after) :
    KernelStep host ⟨collects = true, turns = true⟩ before after := by
  unfold drive at driven
  dsimp only at driven
  split at driven
  · rename_i frame held
    split at driven
    · rename_i offer recorded dispatch stage invoked
      split at driven
      · rename_i unstored
        cases driven
        exact .fail before id frame dispatch offer recorded error now listened held
          (Frame.invoked_of invoked) stage unstored
      · rename_i until_ op stored
        split at driven
        · rename_i entered
          cases driven
          exact .failStored before id frame dispatch offer recorded error now listened until_ op
            held (Frame.invoked_of invoked) stage (Frame.entered_of entered) stored
        · cases driven
    · cases driven
  · cases driven

/-- A description that is to be transrepted. -/
theorem drive_transrept (id : Nat)
    (driven : drive host collects turns before (.transrept id) = some after) :
    KernelStep host ⟨collects = true, turns = true⟩ before after := by
  unfold drive at driven
  dsimp only at driven
  split at driven
  · rename_i frame held
    split at driven
    · rename_i offer recorded dispatch stage described
      cases driven
      exact .transrept before id frame dispatch offer recorded held
        (Frame.describes_of described) stage
    · cases driven
  · cases driven

/-- The next step of a transreption. -/
theorem drive_issue_turn (id issuer : Nat) (requested : Iri) (now : Option Time)
    (driven : drive host collects turns before (.issueTurn id issuer requested now) = some after) :
    KernelStep host ⟨collects = true, turns = true⟩ before after := by
  unfold drive at driven
  dsimp only at driven
  split at driven
  · rename_i frame fresh held
    split at driven
    · rename_i offer current doors stage
      cases driven
      exact .issueTurn before id issuer frame offer current doors requested now fresh held stage
    · cases driven
  · cases driven

/-- A step of a transreption that answered, or that failed. -/
theorem drive_turn (id : Nat) (read : Except Error (List UInt8))
    (driven : drive host collects turns before (.turn id read) = some after) :
    KernelStep host ⟨collects = true, turns = true⟩ before after := by
  unfold drive at driven
  dsimp only at driven
  split at driven
  · rename_i child there
    split at driven
    · rename_i issued issuer done issuedBy
      split at driven
      · rename_i frame held
        split at driven
        · rename_i offer awaited current doors stage
          split at driven
          · rename_i same
            subst same
            split at driven
            · rename_i answer came
              split at driven
              · rename_i kept
                cases driven
                exact .turn before awaited issuer child frame offer current doors issued read answer
                  there issuedBy done held stage came fun full => turn_keeps_of _ _ (kept full)
              · cases driven
            · rename_i error came
              split at driven
              · rename_i kept
                cases driven
                exact .turnFailed before awaited issuer child frame offer current doors issued read
                  error there issuedBy done held stage came
                  (fun full => loses_nothing_of _ _ _ (kept.1 full))
                  fun full => bare_keeps_of _ _ _ _ (kept.2 full)
              · cases driven
          · cases driven
        · cases driven
      · cases driven
    · cases driven
  · cases driven

/-- A description's face, as it was rendered or as the last step left it. -/
theorem drive_describe (id : Nat) (bound : Expiry) (rendered : Representation) (now : Option Time)
    (driven : drive host collects turns before (.describe id bound rendered now) = some after) :
    KernelStep host ⟨collects = true, turns = true⟩ before after := by
  unfold drive at driven
  dsimp only at driven
  split at driven
  · rename_i frame held
    split at driven
    · rename_i offer recorded dispatch stage described
      cases driven
      exact .describe before id frame dispatch offer [] bound rendered now none held
        (Frame.describes_of described) (.inl ⟨recorded, stage, rfl⟩)
    · rename_i offer last doors dispatch stage described
      split at driven
      · rename_i same
        subst same
        cases driven
        exact .describe before id frame dispatch offer doors bound rendered now none held
          (Frame.describes_of described) (.inr stage)
      · cases driven
    · cases driven
  · cases driven

/-- The next operation of a frame that ends. -/
theorem drive_close (id : Nat)
    (driven : drive host collects turns before (.close id) = some after) :
    KernelStep host ⟨collects = true, turns = true⟩ before after := by
  unfold drive at driven
  dsimp only at driven
  split at driven
  · rename_i frame held
    split at driven
    · rename_i op rest issued stage
      cases driven
      exact .close before id frame op rest issued held stage
    · cases driven
  · cases driven

/-- A move that applies is a step. -/
theorem drive_steps (move : Move δ) (driven : drive host collects turns before move = some after) :
    KernelStep host ⟨collects = true, turns = true⟩ before after := by
  cases move with
  | hosted op => exact drive_hosted op driven
  | offered id candidate objection now listened =>
    exact drive_offered id candidate objection now listened driven
  | cutBound id => exact drive_cut_bound id driven
  | arrive id parent requested verb buffer incoming now =>
    exact drive_arrive id parent requested verb buffer incoming now driven
  | refuse id error => exact drive_refuse id error driven
  | admitted id canonical key operation through =>
    exact drive_admitted id canonical key operation through driven
  | enter id => exact drive_enter id driven
  | skipFailures id => exact drive_skip_failures id driven
  | askFailure id => exact drive_ask_failure id driven
  | look id => exact drive_look id driven
  | declare id declaration => exact drive_declare id declaration driven
  | enterDoor id => exact drive_enter_door id driven
  | deliver id reading => exact drive_deliver id reading driven
  | answer id given now listened => exact drive_answer id given now listened driven
  | fail id error now listened => exact drive_fail id error now listened driven
  | transrept id => exact drive_transrept id driven
  | issueTurn id issuer requested now => exact drive_issue_turn id issuer requested now driven
  | turn id read => exact drive_turn id read driven
  | describe id bound rendered now => exact drive_describe id bound rendered now driven
  | close id => exact drive_close id driven

end Steps

/-- The state after a list of moves. -/
def driveAll (host : Host π δ) (collects turns : Bool) (state : KernelState δ) :
    List (Move δ) → Option (KernelState δ)
  | [] => some state
  | move :: rest =>
    (drive host collects turns state move).bind fun after =>
      driveAll host collects turns after rest

/-- Moves that are driven, one after the other, are a run. -/
theorem drive_all_runs (host : Host π δ) (collects turns : Bool) (moves : List (Move δ))
    (before after : KernelState δ)
    (driven : driveAll host collects turns before moves = some after) :
    Relation.ReflTransGen (KernelStep host ⟨collects = true, turns = true⟩) before after := by
  induction moves generalizing before with
  | nil =>
    cases driven
    exact .refl
  | cons move rest ih =>
    obtain ⟨between, first, further⟩ := Option.bind_eq_some_iff.mp driven
    exact .head (drive_steps move first) (ih between further)

/-- Where a list of moves leads from the start; the start itself when one does not apply. -/
def driven (host : Host π δ) (collects turns : Bool) (inner : δ) (moves : List (Move δ)) :
    KernelState δ :=
  (driveAll host collects turns (.initial inner) moves).getD (.initial inner)

/-- What is driven to is reached. -/
theorem driven_reached (host : Host π δ) (collects turns : Bool) (inner : δ)
    (moves : List (Move δ)) : KernelReached host ⟨collects = true, turns = true⟩ inner
      (driven host collects turns inner moves) := by
  unfold driven
  cases run : driveAll host collects turns (.initial inner) moves with
  | none => exact .refl
  | some after => exact drive_all_runs host collects turns moves _ _ run

/-- With care about nothing. -/
theorem driven_reached_any (host : Host π δ) (inner : δ) (moves : List (Move δ)) :
    KernelReached host .nothing inner (driven host false false inner moves) := by
  simpa [Care.nothing] using driven_reached host false false inner moves

/-- With care about collects alone. -/
theorem driven_reached_collected (host : Host π δ) (inner : δ) (moves : List (Move δ)) :
    KernelReached host .collected inner (driven host true false inner moves) := by
  simpa [Care.collected] using driven_reached host true false inner moves

/-- With care about collects and about transreptions. -/
theorem driven_reached_both (host : Host π δ) (inner : δ) (moves : List (Move δ)) :
    KernelReached host .both inner (driven host true true inner moves) := by
  simpa [Care.both] using driven_reached host true true inner moves

end Drive

end Ikigai
