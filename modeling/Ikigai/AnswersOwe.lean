import Ikigai.FactsKept

/-!
# What each answer owes

One section for each way a frame ends: an endpoint's answer, its failure, a description, a
kernel operation. Each shows that the result owes the frame's facts and that whatever is
filed is warranted by them.
-/

namespace Ikigai

variable {π δ : Type} {host : Host π δ} {care : Care} {state : KernelState δ}

/-- A fact just established is quiet. -/
theorem quiet_since (history : List Thread) (fact : Fact) : Quiet history fact.since fact := by
  intro thread _ cut
  rw [List.drop_eq_nil_of_le (List.length_take_le _ _)] at cut
  cases cut

/-- A fact a frame adds itself: established at its snapshot, not about a door, and hanging
from a name it read. -/
structure Own (taken : Nat) (fact : Fact) : Prop where
  since : fact.since = taken
  depth : fact.about = .depth → fact.expiry = .always
  notDoor : fact.about.doorOf = none
  reads : ∀ canonical, fact.about = .read canonical → canonical ∈ fact.threads

/-- A fact taken in this frame is dated by it, if it was taken by now. -/
theorem Dated.of_own {fact : Fact} {taken : Nat} (own : Own taken fact)
    (within : taken ≤ state.cuts) : Dated host care state fact where
  since := own.since.trans_le within
  depth := own.depth
  reads := own.reads
  hangs := fun version door => by cases (congrArg About.doorOf door).symm.trans own.notDoor
  opened := fun version door => by cases (congrArg About.doorOf door).symm.trans own.notDoor
  behind := fun version door => by cases (congrArg About.doorOf door).symm.trans own.notDoor

/-- Neither a read nor a door, nor for depth. -/
def About.isPlain : About → Bool
  | .read _ | .door _ | .behind _ | .depth => false
  | .heard _ | .declared | .answered | .missed _ | .upstream | .described | .stated | .ceiling
  | .computed _ => true

/-- A plain fact is the frame's own. -/
theorem Own.of_about {about : About} {threads : ThreadSet} {expiry : Expiry} {taken : Nat}
    (plain : about.isPlain = true) : Own taken (.own about threads expiry taken) where
  since := rfl
  depth := by rintro rfl; cases plain
  notDoor := by cases about <;> first | rfl | cases plain
  reads := by rintro canonical rfl; cases plain

/-- What a read went by is the frame's own. -/
theorem own_read (verb : Verb) (canonical : Iri) (taken : Nat) :
    ∀ fact ∈ readFacts verb canonical taken, Own taken fact := by
  intro fact member
  cases verb <;> simp only [readFacts, List.mem_singleton, List.not_mem_nil] at member
  all_goals
    subst member
    refine ⟨rfl, nofun, rfl, ?_⟩
    rintro _ ⟨⟩
    simp [Fact.on]

/-- What came with the upstream is taken as the frame's own. -/
theorem own_upstream (incoming : Option Provenance) (taken : Nat) :
    ∀ fact ∈ upstreamFacts incoming taken, Own taken fact := by
  intro fact member
  cases incoming with
  | none => cases member
  | some incoming =>
    obtain rfl := List.mem_singleton.mp member
    exact Own.of_about rfl

/-- What a refusal rested on is the frame's own. -/
theorem own_refusal (error : Error) (version taken : Nat) :
    ∀ fact ∈ refusalFacts error version taken, Own taken fact := by
  intro fact member
  cases error with
  | depthExceeded depth target =>
    obtain rfl := List.mem_singleton.mp member
    exact ⟨rfl, fun _ => rfl, rfl, nofun⟩
  | unresolved name =>
    obtain rfl := List.mem_singleton.mp member
    exact Own.of_about rfl
  | _ => cases member

/-- What a frame stands on when it ends is its own. -/
theorem own_standing (ceiling : Nat) (frame : Frame) (recorded : Recorded)
    (now : Option Time) :
    ∀ fact ∈ standingFacts ceiling frame recorded now, Own frame.taken fact := by
  intro fact member
  simp only [standingFacts, List.mem_append] at member
  rcases member with (member | member) | member
  · cases said : recorded.failureUntil with
    | none => simp [said] at member
    | some until_ =>
      rw [said] at member
      obtain rfl := List.mem_singleton.mp member
      exact Own.of_about rfl
  · cases now with
    | none => cases member
    | some read =>
      obtain rfl := List.mem_singleton.mp member
      exact Own.of_about rfl
  · exact own_upstream _ _ fact member

/-- What a declaration states is the frame's own. -/
theorem own_declaration (declaration : Declaration) (taken : Nat) :
    ∀ fact ∈ declaration.facts taken, Own taken fact := by
  intro fact member
  cases declaration with
  | failureUntil until_ => cases member
  | _ =>
    obtain rfl := List.mem_singleton.mp member
    exact Own.of_about rfl

/-- Settling an answer never lengthens its life. -/
theorem settled_expiry_le (canonical : Iri) (recorded : Recorded)
    (incoming : Option Provenance) (answer : Representation) :
    (settled canonical recorded incoming answer).expiry ≤ answer.expiry := by
  cases incoming with
  | none => exact inf_le_left
  | some incoming => exact inf_le_left.trans inf_le_left

/-- It takes no thread from it. -/
theorem settled_threads (canonical : Iri) (recorded : Recorded)
    (incoming : Option Provenance) (answer : Representation) :
    ∀ thread ∈ answer.threads, thread ∈ (settled canonical recorded incoming answer).threads := by
  intro thread member
  cases incoming with
  | none =>
    simp only [settled]
    split <;> simp [member]
  | some incoming =>
    simp only [settled]
    split <;> simp [member]

/-- Settled under an upstream it outlives it by nothing, and hangs from all that it did. -/
theorem settled_upstream (canonical : Iri) (recorded : Recorded) (incoming : Provenance)
    (answer : Representation) :
    (settled canonical recorded (some incoming) answer).expiry ≤ incoming.expiry ∧
      ∀ thread ∈ incoming.threads,
        thread ∈ (settled canonical recorded (some incoming) answer).threads := by
  refine ⟨inf_le_right, ?_⟩
  intro thread member
  simp [settled, OrderedSet.mem_items, member]

/-- Settling changes no body. -/
theorem settled_body (canonical : Iri) (recorded : Recorded) (incoming : Option Provenance)
    (answer : Representation) : (settled canonical recorded incoming answer).body = answer.body := by
  cases incoming <;> rfl

/-- Settling leaves the mark of a revalidation. -/
theorem settled_plain (canonical : Iri) (recorded : Recorded) (incoming : Option Provenance)
    (answer : Representation) :
    (settled canonical recorded incoming answer).revalidated = answer.revalidated := by
  cases incoming <;> rfl

/-- "Still valid" is answered by the offered body, hanging from what it hung from. -/
theorem refreshed_revalidated {stale : Offer} {given answer : Representation}
    (body : refreshed (some stale) given = some answer) (stands : given.revalidated = true) :
    answer.body = stale.stored.body ∧ answer.threads = stale.stored.threads := by
  simp only [refreshed, stands, Bool.not_true, Bool.false_eq_true, ↓reduceIte] at body
  obtain ⟨stored, shared, rfl⟩ := Option.map_eq_some_iff.mp body
  obtain rfl := stale.stored.share_eq_some stored shared
  exact ⟨rfl, rfl⟩

/-- An answer runs out when its endpoint says, whatever body it brings. -/
theorem refreshed_expiry {offer : Option Offer} {given answer : Representation}
    (body : refreshed offer given = some answer) : answer.expiry = given.expiry := by
  cases offer with
  | none =>
    cases body
    rfl
  | some stale =>
    by_cases stands : given.revalidated = true
    · simp only [refreshed, stands, Bool.not_true, Bool.false_eq_true, ↓reduceIte] at body
      obtain ⟨stored, _, rfl⟩ := Option.map_eq_some_iff.mp body
      rfl
    · simp only [refreshed, stands, Bool.not_false, ↓reduceIte, Option.some.injEq] at body
      rw [body]

/-- A settled answer owes what came with its upstream. -/
theorem upstream_owed (canonical : Iri) (recorded : Recorded) (incoming : Option Provenance)
    (answer : Representation) (taken : Nat) :
    ∀ fact ∈ upstreamFacts incoming taken,
      Owed (settled canonical recorded incoming answer).expiry
        (settled canonical recorded incoming answer).threads fact := by
  intro fact member
  cases incoming with
  | none => cases member
  | some incoming =>
    obtain rfl := List.mem_singleton.mp member
    obtain ⟨sooner, threads⟩ := settled_upstream canonical recorded incoming answer
    exact ⟨fun _ => sooner, nofun, .inr threads⟩

/-- An answer that may be kept hangs from its own name, and owes its read by that. -/
theorem read_owed {expiry : Expiry} {threads : ThreadSet} (verb : Verb) (canonical : Iri)
    (taken : Nat) (own : expiry ≠ .always → canonical ∈ threads) :
    ∀ fact ∈ readFacts verb canonical taken, Owed expiry threads fact := by
  intro fact member
  cases verb <;> simp only [readFacts, List.mem_singleton, List.not_mem_nil] at member
  all_goals
    subst member
    exact Owed.of_on own

/-- The facts of an answered invocation are owed by its answer. -/
theorem answer_facts_owed {frame : Frame} {dispatch : Dispatch} {offer : Option Offer}
    {recorded : Recorded} {given answer : Representation} {history : List Thread}
    (running : RunningKept care frame offer recorded)
    (body : refreshed offer given = some answer)
    (offered : ∀ offered, frame.offered = some offered →
      Stands host care history dispatch.key offered) :
    ∀ fact ∈ answerFacts frame dispatch offer given
        (settled dispatch.canonical recorded frame.incoming answer), Counts care fact →
      Owed (settled dispatch.canonical recorded frame.incoming answer).expiry
        (settled dispatch.canonical recorded frame.incoming answer).threads fact := by
  intro fact member counts
  have recordKept := settled_keeps dispatch.canonical recorded frame.incoming answer
  simp only [answerFacts, List.cons_append, List.append_assoc, List.mem_cons,
    List.mem_append] at member
  rcases member with rfl | member | member | member | member
  · refine Owed.of_timed ((settled_expiry_le _ _ _ _).trans ?_)
    rw [refreshed_expiry body]
  · unfold bodyFacts at member
    split at member
    · -- The offered body: its facts hang from what it hung from, and their time is moved.
      rename_i moved
      obtain ⟨stale, rfl⟩ := Option.isSome_iff_exists.mp (Bool.and_eq_true_iff.mp moved).1
      obtain ⟨found, has, holds⟩ := running.offered stale rfl
      rw [has] at member
      obtain ⟨old, there, rfl⟩ := List.mem_map.mp member
      obtain ⟨_, threads⟩ := (offered found has).owes there counts
      have lasting := (offered found has).lasting there counts
      rw [holds] at threads
      refine ⟨nofun, fun _ volatile => absurd volatile lasting, .inr ?_⟩
      intro thread hangs
      apply settled_threads
      rw [(refreshed_revalidated body (Bool.and_eq_true_iff.mp moved).2).2]
      exact threads thread hangs
    · obtain rfl := List.mem_singleton.mp member
      exact ⟨fun _ => le_rfl, nofun, .inr fun _ => id⟩
  · exact upstream_owed _ _ _ _ _ fact member
  · exact read_owed _ _ _ (settled_own_thread _ _ _ _) fact member
  · exact (running.owes fact member counts).within recordKept.1
      fun _ thread hangs => recordKept.2 thread hangs

/-- A read's own fact is among those of its answer. -/
theorem read_fact_mem {verb : Verb} (reads : verb = .source ∨ verb = .exists) (canonical : Iri)
    (taken : Nat) : Fact.on (.read canonical) canonical taken ∈ readFacts verb canonical taken := by
  rcases reads with rfl | rfl <;> exact List.mem_singleton.mpr rfl

/-- A stored answer is never volatile. -/
theorem storable_kept {now : Option Time} {answer : Representation}
    (stored : storable now answer = true) : answer.expiry ≠ .always := by
  intro volatile
  simp [storable, volatile] at stored

/-- The filings among the operations of an answer: the store of it, when it is storable. -/
theorem answer_ops_filing {verb : Verb} {listened : Bool} {dispatch : Dispatch}
    {offer : Option Offer} {now : Option Time} {final : Representation} {taken : Nat}
    {costMillis : Option Nat} {incoming : Option Provenance} {op : CacheOp}
    (member : op ∈ answerOps verb listened dispatch offer now final taken costMillis incoming)
    {filing : Filing} (files : op.filing = some filing) :
    filing = ⟨dispatch.key, .answer final, taken⟩ ∧ storable now final = true := by
  unfold answerOps at member
  split at member
  · rcases List.mem_append.mp member with discards | stores
    · cases offer with
      | none => cases discards
      | some stale =>
        obtain rfl := List.mem_singleton.mp discards
        cases files
    · split at stores
      · rename_i stored
        obtain rfl := List.mem_singleton.mp stores
        cases files
        exact ⟨rfl, stored⟩
      · cases stores
  · unfold writeCut cutOps at member
    split at member
    · split at member
      · obtain rfl := List.mem_singleton.mp member
        cases files
      · rcases List.mem_cons.mp member with rfl | member
        · cases files
        · obtain rfl := List.mem_singleton.mp member
          cases files
    · cases member

/-- What a body states the whole answer states. -/
theorem answer_facts_of_body {frame : Frame} {dispatch : Dispatch} {offer : Option Offer}
    {given final : Representation} {fact : Fact}
    (member : fact ∈ bodyFacts offer frame.offered given final frame.taken) :
    fact ∈ answerFacts frame dispatch offer given final :=
  List.mem_append_left _ (List.mem_append_left _ (List.mem_append_left _
    (List.mem_cons_of_mem _ member)))

/-- A body an answer brings itself is a fact of its computing. -/
theorem computed_fact_mem {offer : Option Offer} {given : Representation}
    (offered : Option FromCache) (final : Representation) (taken : Nat)
    (own : ¬(offer.isSome && given.revalidated) = true) :
    .own (.computed final.body) final.threads final.expiry taken ∈
      bodyFacts offer offered given final taken := by
  rw [bodyFacts, if_neg own]
  exact List.mem_singleton_self _

/-- What is stored of an answer is warranted by the facts of its invocation. -/
theorem answer_warranted {frame : Frame} {dispatch : Dispatch} {offer : Option Offer}
    {recorded : Recorded} {given answer : Representation} {history : List Thread}
    (running : RunningKept care frame offer recorded)
    (body : refreshed offer given = some answer) (plain : answer.revalidated = false)
    (asked : host.asked dispatch.key = ⟨frame.verb, dispatch.canonical, dispatch.operation⟩)
    (offered : ∀ offered, frame.offered = some offered →
      Stands host care history dispatch.key offered)
    (began : frame.taken ≤ frame.began) (counted : frame.began ≤ history.length)
    (quiet : ∀ fact ∈ answerFacts frame dispatch offer given
      (settled dispatch.canonical recorded frame.incoming answer), Counts care fact →
        Quiet history frame.taken fact)
    (kept : (settled dispatch.canonical recorded frame.incoming answer).expiry ≠ .always) :
    Warranted host care history
      ⟨dispatch.key, .answer (settled dispatch.canonical recorded frame.incoming answer),
        frame.taken⟩
      ⟨frame.began, answerFacts frame dispatch offer given
        (settled dispatch.canonical recorded frame.incoming answer)⟩ where
  kept := kept
  taken := began
  began := counted
  owes := answer_facts_owed running body offered
  quiet := quiet
  read := by
    rw [asked]
    intro _ reads
    refine ⟨Fact.on (.read dispatch.canonical) dispatch.canonical frame.taken, ?_, rfl, rfl, ?_⟩
    · exact List.mem_append_left _ (List.mem_append_right _ (read_fact_mem reads _ frame.taken))
    · simp [Fact.on]
  failure := nofun
  body := by
    rintro _ ⟨⟩ endpoint notMeta
    refine ⟨(settled_plain _ _ _ _).trans plain, ?_⟩
    by_cases moved : (offer.isSome && given.revalidated) = true
    · obtain ⟨stale, rfl⟩ := Option.isSome_iff_exists.mp (Bool.and_eq_true_iff.mp moved).1
      obtain ⟨found, has, holds⟩ := running.offered stale rfl
      obtain ⟨taken, warranted, _⟩ := (offered found has).filed
      obtain ⟨_, fact, member, about, own⟩ := warranted.body stale.stored holds endpoint notMeta
      refine ⟨fact.vouched, ?_, ?_, own⟩
      · refine answer_facts_of_body ?_
        rw [bodyFacts, if_pos moved, has]
        exact List.mem_map_of_mem member
      · rw [settled_body, (refreshed_revalidated body (Bool.and_eq_true_iff.mp moved).2).1]
        exact about
    · exact ⟨_, answer_facts_of_body (computed_fact_mem frame.offered
        (settled dispatch.canonical recorded frame.incoming answer) frame.taken moved), rfl, rfl, rfl⟩

/-- What a failed invocation would hand over owes its facts, cached or not. -/
theorem failure_facts_owed {frame : Frame} {dispatch : Dispatch} {offer : Option Offer}
    {recorded : Recorded} (running : RunningKept care frame offer recorded) {expiry : Expiry}
    {threads : ThreadSet} (sooner : expiry ≤ recorded.expiry)
    (own : dispatch.canonical ∈ threads) (more : ∀ thread ∈ recorded.threads, thread ∈ threads) :
    ∀ fact ∈ failureFacts frame dispatch, Counts care fact → Owed expiry threads fact := by
  intro fact member counts
  rcases List.mem_append.mp member with member | member
  · exact read_owed _ _ _ (fun _ => own) fact member
  · exact (running.owes fact member counts).within sooner fun _ => more

/-- The store of a failure is a store of what may be stored. -/
theorem failure_store_spec {ceiling : Nat} {frame : Frame} {dispatch : Dispatch}
    {recorded : Recorded} {error : Error} {now : Option Time} {until_ : Time} {op : CacheOp}
    (stored : failureStore ceiling frame dispatch recorded error now = some (until_, op)) :
    ∃ threads, failureToStore ceiling now error recorded.failureUntil
        (recorded.failureDependencies dispatch.canonical) frame.incoming = some (until_, threads) ∧
      op = .storeFailure dispatch.key dispatch.canonical error until_ threads frame.taken
        frame.incoming := by
  unfold failureStore at stored
  split at stored
  · obtain ⟨⟨deadline, threads⟩, may, same⟩ := Option.map_eq_some_iff.mp stored
    cases same
    exact ⟨threads, may, rfl⟩
  · cases stored

/-- Letting a failure stand is within what its endpoint, the host and the upstream allow. -/
theorem standing_owed {ceiling : Nat} {frame : Frame} {dispatch : Dispatch}
    {recorded : Recorded} {error : Error} {now : Option Time} {until_ : Time}
    {threads : ThreadSet}
    (may : failureToStore ceiling now error recorded.failureUntil
      (recorded.failureDependencies dispatch.canonical) frame.incoming = some (until_, threads)) :
    ∀ fact ∈ standingFacts ceiling frame recorded now, Owed (.«at» until_) threads fact := by
  obtain ⟨_, ⟨said, read, stated, reads, withinSaid, withinCeiling, _⟩, _, upstream, _⟩ :=
    failure_to_store_spec may
  intro fact member
  simp only [standingFacts, stated, reads, Option.elim_some, List.mem_append,
    List.mem_singleton] at member
  rcases member with (rfl | rfl) | member
  · exact Owed.of_timed ((Expiry.at_le_at_iff _ _).mpr withinSaid)
  · exact Owed.of_timed ((Expiry.at_le_at_iff _ _).mpr withinCeiling)
  · cases came : frame.incoming with
    | none =>
      rw [came] at member
      cases member
    | some incoming =>
      rw [came] at member
      obtain rfl := List.mem_singleton.mp member
      obtain ⟨sooner, hangs⟩ := upstream incoming came
      exact ⟨fun _ => sooner, nofun, .inr hangs⟩

/-- What is stored of a failure is warranted by the facts of its invocation. -/
theorem failure_warranted {ceiling : Nat} {frame : Frame} {dispatch : Dispatch}
    {offer : Option Offer} {recorded : Recorded} {error : Error} {now : Option Time}
    {until_ : Time} {threads : ThreadSet} {history : List Thread}
    (running : RunningKept care frame offer recorded)
    (may : failureToStore ceiling now error recorded.failureUntil
      (recorded.failureDependencies dispatch.canonical) frame.incoming = some (until_, threads))
    (asked : host.asked dispatch.key = ⟨frame.verb, dispatch.canonical, dispatch.operation⟩)
    (began : frame.taken ≤ frame.began) (counted : frame.began ≤ history.length)
    (quiet : ∀ fact ∈ standingFacts ceiling frame recorded now ++ failureFacts frame dispatch,
      Counts care fact → Quiet history frame.taken fact) :
    Warranted host care history
      ⟨dispatch.key, .failed ⟨error, until_, threads⟩, frame.taken⟩
      ⟨frame.began, standingFacts ceiling frame recorded now ++ failureFacts frame dispatch⟩ where
  kept := nofun
  taken := began
  began := counted
  owes := by
    intro fact member counts
    obtain ⟨_, _, sooner, _, more⟩ := failure_to_store_spec may
    rcases List.mem_append.mp member with member | member
    · exact standing_owed may fact member
    · refine failure_facts_owed running sooner (more _ ?_) ?_ fact member counts
      · simp [Recorded.failureDependencies]
      · intro thread hangs
        exact more thread (by simp [Recorded.failureDependencies, hangs])
  quiet := quiet
  read := by
    rw [asked]
    intro _ reads
    refine ⟨Fact.on (.read dispatch.canonical) dispatch.canonical frame.taken, ?_, rfl, rfl, ?_⟩
    · exact List.mem_append_right _ (List.mem_append_left _ (read_fact_mem reads _ frame.taken))
    · simp [Fact.on]
  failure := by
    rintro _ ⟨⟩
    obtain ⟨cacheable, ⟨said, read, stated, reads, _⟩, _⟩ := failure_to_store_spec may
    refine ⟨cacheable, ⟨Fact.timed .stated (.«at» said) frame.taken, ?_, rfl, rfl, rfl, rfl⟩,
      Fact.timed .ceiling (.«at» (saturatingAdd read (min ceiling wordMax))) frame.taken, ?_, rfl,
      rfl, rfl, rfl⟩ <;> simp [standingFacts, stated, reads]
  body := nofun

/-- A description's face owes what the description relies on itself. -/
theorem described_owed (door : Option Nat) (doors : List Nat) (bound : Expiry)
    (rendered : Representation) (taken : Nat) : ∀ fact ∈ describedFacts door doors bound taken,
      Owed (describedFace bound rendered).expiry (describedFace bound rendered).threads fact := by
  have hangs : bindingsThread ∈ (describedFace bound rendered).threads :=
    (OrderedSet.mem_insert _ _ _).mpr (.inl rfl)
  intro fact member
  rw [describedFacts, List.cons_append, List.mem_cons, List.mem_append] at member
  rcases member with rfl | member | member
  · refine ⟨fun _ => inf_le_right, nofun, .inr ?_⟩
    intro thread named
    obtain rfl : thread = bindingsThread := by simpa using named
    exact hangs
  · cases door with
    | none => cases member
    | some version =>
      obtain rfl := List.mem_singleton.mp member
      exact Owed.of_on fun _ => hangs
  · obtain ⟨version, _, rfl⟩ := List.mem_map.mp member
    exact Owed.of_on fun _ => hangs

/-- A description's face owes what the last step of its transreption owed, of which it keeps
the threads and moves the time. -/
theorem Owed.described {current : Option Representation} {rendered : Representation}
    {fact : Fact} (owed : Owed .never (turnThreads current) fact)
    (made : ∀ thread ∈ turnThreads current, thread ∈ rendered.threads) (bound : Expiry) :
    Owed (describedFace bound rendered).expiry (describedFace bound rendered).threads fact :=
  owed.within (Expiry.le_never _) fun _ thread member =>
    (OrderedSet.mem_insert _ _ _).mpr (.inr (made thread member))

/-- An operation's answer owes what came with its upstream. -/
theorem operation_owed (incoming : Option Provenance) (answer : Representation) (taken : Nat) :
    ∀ fact ∈ upstreamFacts incoming taken,
      Owed (operationAnswer incoming answer).expiry (operationAnswer incoming answer).threads
        fact := by
  intro fact member
  cases incoming with
  | none => cases member
  | some incoming =>
    obtain rfl := List.mem_singleton.mp member
    refine ⟨fun _ => inf_le_right, nofun, .inr ?_⟩
    intro thread hangs
    exact (OrderedSet.mem_extend _ _ _).mpr (.inr hangs)

/-- An answer that is not an endpoint's is warranted by facts it owes. -/
theorem Warranted.of_unread {history : List Thread} {key : CacheKey} {answer : Representation}
    {taken began : Nat} {facts : List Fact} (kept : answer.expiry ≠ .always)
    (earlier : taken ≤ began) (counted : began ≤ history.length)
    (unread : (host.asked key).verb = .«meta» ∨ (host.asked key).operation = true)
    (owes : ∀ fact ∈ facts, Counts care fact → Owed answer.expiry answer.threads fact)
    (quiet : ∀ fact ∈ facts, Counts care fact → Quiet history taken fact) :
    Warranted host care history ⟨key, .answer answer, taken⟩ ⟨began, facts⟩ where
  kept := kept
  taken := earlier
  began := counted
  owes := owes
  quiet := quiet
  read := by
    intro endpoint reads
    rcases unread with described | operation
    · rw [described] at reads
      rcases reads with reads | reads <;> cases reads
    · rw [operation] at endpoint
      cases endpoint
  failure := nofun
  body := by
    rintro _ ⟨⟩ endpoint notMeta
    rcases unread with described | operation
    · exact absurd described notMeta
    · rw [operation] at endpoint
      cases endpoint

/-- An operation's answer that is stored may be kept. -/
theorem operation_storable_kept {now : Option Time} {answer : Representation}
    (stored : operationStorable now answer = true) : answer.expiry ≠ .always := by
  intro volatile
  simp [operationStorable, volatile] at stored

/-- An answer owes through any collect that loses nothing. -/
theorem Outcome.owes_of_answer {answer : Representation} {fact : Fact}
    (owed : Owed answer.expiry answer.threads fact) :
    Outcome.Owes ⟨.ok answer, .none⟩ fact := by
  intro requested reading lossless
  dsimp only
  cases taken : reading.received (.ok answer) with
  | ok buffer =>
    obtain ⟨expiry, threads⟩ := reading.received_ok answer buffer taken
    simp only [hear, Heard.expiry, Heard.threads, expiry, threads]
    exact owed
  | error error =>
    rcases hear_bare_error requested error with ⟨name, missed⟩ | spoiled
    · have nothing := lossless answer name .none rfl (by dsimp only; rw [taken, missed])
      rw [Sub.Loses, not_or, not_not] at nothing
      rw [nothing.1] at owed
      rw [missed]
      refine ⟨owed.sooner, owed.lasts, .inr ?_⟩
      intro thread hangs
      rcases owed.hangs with volatile | threads
      · cases volatile
      · refine (OrderedSet.mem_insert _ _ _).mpr (.inl ?_)
        by_contra other
        exact nothing.2 ⟨thread, threads thread hangs, other⟩
    · rw [spoiled]
      exact Owed.of_always _ _

/-- A failure owes what it carries owes. -/
theorem Outcome.owes_of_error {error : Error} {carried : Dependencies} {fact : Fact}
    (owed : Owed carried.expiry carried.threads fact) :
    Outcome.Owes ⟨.error error, carried⟩ fact := by
  intro requested reading _
  obtain ⟨sooner, threads⟩ := hear_error_passes requested error carried
  refine owed.within sooner ?_
  intro kept
  apply threads
  intro spoiled
  have volatile : (hear requested (reading.received (.error error)) carried).expiry = .always := by
    change (hear requested (.error error) carried).expiry = .always
    rw [spoiled]
    rfl
  exact kept volatile

/-- A failure that is neither a miss nor cached owes everything. -/
theorem Outcome.owes_of_spoiled {error : Error} {fact : Fact}
    (spoils : ∀ requested, hear requested (.error error) .none = .spoiled) :
    Outcome.Owes ⟨.error error, .none⟩ fact := by
  intro requested reading _
  change Owed (hear requested (.error error) .none).expiry
    (hear requested (.error error) .none).threads fact
  rw [spoils]
  exact Owed.of_always _ _

/-- What is owed by what was dropped, which hung from nothing, is owed by anything. -/
theorem Owed.dropped {current : Option Representation} {fact : Fact}
    (owed : Owed .never (turnThreads current) fact)
    (bare : ∀ earlier, current = some earlier → ∀ thread, thread ∉ earlier.threads)
    (threads : ThreadSet) : Owed .never threads fact := by
  refine owed.within le_rfl fun _ thread hangs => ?_
  cases current with
  | none => exact absurd hangs ((OrderedSet.mem_empty thread).mp ·)
  | some before => exact absurd hangs (bare before rfl thread)

/-- A description that failed with the bare error of its step owes what was heard of the step
and what the steps before it answered, when nothing was lost. -/
theorem Outcome.owes_of_bare {requested : Iri} {current : Option Representation}
    {result : Except Error Representation} {carried : Dependencies} {error : Error} {fact : Fact}
    (kept : BareKeeps requested current result carried) (came : result = .error error)
    (moved : fact.extended = true)
    (owed : Owed (hear requested result carried).expiry (hear requested result carried).threads
      fact ∨ Owed .never (turnThreads current) fact) :
    Outcome.Owes ⟨.error error, .none⟩ fact := by
  intro caller reading _
  change Owed (hear caller (.error error) .none).expiry (hear caller (.error error) .none).threads
    fact
  subst came
  cases error with
  | unresolved name =>
    obtain ⟨_, lasts, alone, dropped⟩ := kept name carried rfl
    rcases owed with heard | earlier
    · refine ⟨fun standing => absurd moved (by simp [standing]), fun _ volatile =>
        absurd volatile (heard.lasting lasts), .inr fun thread hangs => ?_⟩
      rcases heard.hangs with volatile | threads
      · exact absurd volatile lasts
      · refine (OrderedSet.mem_insert _ _ _).mpr (.inl ?_)
        rcases (OrderedSet.mem_insert _ _ _).mp (threads thread hangs) with named | behind
        · exact named
        · exact alone thread behind
    · exact earlier.dropped dropped _
  | notFound detail => cases (kept requested carried rfl).1
  | _ => exact Owed.of_always _ _

/-- A refusal owes what it rested on. -/
theorem Outcome.owes_of_refusal {error : Error} {version taken : Nat} :
    ∀ fact ∈ refusalFacts error version taken, Outcome.Owes ⟨.error error, .none⟩ fact := by
  intro fact member
  cases error with
  | depthExceeded depth target =>
    obtain rfl := List.mem_singleton.mp member
    exact Outcome.owes_of_spoiled fun _ => rfl
  | unresolved name =>
    obtain rfl := List.mem_singleton.mp member
    exact fun _ _ _ => Owed.of_timed (Expiry.le_never _)
  | _ => cases member

/-- Operations that end a write cut its target. -/
theorem write_cut_threads {verb : Verb} {listened : Bool} {canonical : Iri} :
    (∀ op ∈ writeCut verb listened canonical, op.filing = none ∧
      ∀ thread, op.cutThread = some thread → verb.isMutating = true ∧ thread = canonical) ∧
      (verb.isMutating = true → ∃ op ∈ writeCut verb listened canonical,
        op.cutThread = some canonical) := by
  unfold writeCut cutOps
  refine ⟨?_, ?_⟩
  · intro op member
    split at member
    · rename_i mutating
      split at member
      · obtain rfl := List.mem_singleton.mp member
        exact ⟨rfl, fun thread cut => ⟨mutating, (Option.some.inj cut).symm⟩⟩
      · rcases List.mem_cons.mp member with rfl | member
        · exact ⟨rfl, fun thread cut => ⟨mutating, (Option.some.inj cut).symm⟩⟩
        · obtain rfl := List.mem_singleton.mp member
          exact ⟨rfl, fun thread cut => by cases cut⟩
    · cases member
  · intro mutating
    rw [if_pos mutating]
    split
    · exact ⟨_, List.mem_singleton_self _, rfl⟩
    · exact ⟨_, List.mem_cons_self, rfl⟩

/-- A discard neither files nor cuts. -/
theorem discard_ops_quiet {key : CacheKey} {offer : Option Offer} {op : CacheOp}
    (member : op ∈ discardOps key offer) : op.filing = none ∧ op.cutThread = none := by
  cases offer with
  | none => cases member
  | some stale =>
    obtain rfl := List.mem_singleton.mp member
    exact ⟨rfl, rfl⟩

/-- A frame whose endpoint ran ends with operations that cut as a write must, and file what
is warranted. -/
theorem closing_kept {frame : Frame} {dispatch : Dispatch} {facts : List Fact}
    {pending : List CacheOp} {issued : Issued} {history : List Thread}
    (invoked : frame.invoked dispatch)
    (owes : frame.incoming = none → ∀ fact ∈ facts, Counts care fact → issued.Owes fact)
    (answers : ∀ answer, issued.result = .ok answer → ∀ fact ∈ facts, Counts care fact →
      Owed answer.expiry answer.threads fact)
    (files : ∀ op ∈ pending, ∀ filing, op.filing = some filing →
      Warranted host care history filing ⟨frame.began, facts⟩)
    (cuts : ∀ op ∈ pending, ∀ thread, op.cutThread = some thread →
      frame.verb.isMutating = true ∧ thread = dispatch.canonical)
    (writes : frame.verb.isMutating = true →
      ∃ op ∈ pending, op.cutThread = some dispatch.canonical) :
    ClosingKept host care history (frame.close pending issued facts) pending issued := by
  obtain ⟨dispatched, _, endpoint⟩ := invoked
  refine ⟨owes, answers, files, ?_, ?_⟩
  · intro op member thread cut
    obtain ⟨mutating, rfl⟩ := cuts op member thread cut
    exact ⟨mutating, dispatch, dispatched, endpoint, rfl⟩
  · rintro canonical ⟨mutating, other, same, _, rfl⟩
    obtain rfl : dispatch = other := Option.some.inj (dispatched.symm.trans same)
    exact .inr (writes mutating)

end Ikigai
