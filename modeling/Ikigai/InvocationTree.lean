import Ikigai.Dependencies
import Ikigai.Request

/-!
# Invocation trees

One request and all it led to: answered from the cache or by the kernel itself, refused
before anything was entered, handed to an endpoint, which issued sub-requests in some
order, took each answer's body as it came or collected it, and then answered what it
liked, or answered by the kernel with the endpoint's description, which may be turned into
the requested type by sub-requests of its own. An endpoint's own computing and the renderer
are not modelled: what they answer, what an endpoint declares and how each collect ends are
part of the tree.

Everything a sub-request hung from reaches the answer, with two exceptions. When a streamed
answer fails as a miss while the issuing invocation collects it, the failure is recorded
with nothing of what the answer hung from. And a description hands each step's bytes to the
next step and keeps the threads of the last alone, resets the expiry, and hands on a step's
failure bare.
-/

namespace Ikigai

/-- How an issuing invocation took the body of an answer: as it came, or collected, with
what reading the stream came to. -/
inductive Reading where
  | body
  | collected (read : Except Error (List UInt8))
deriving DecidableEq

/-- `collected`: a buffer is handed over, anything else is read. -/
def Reading.received (reading : Reading) (result : Except Error Representation) :
    Except Error Representation :=
  match result, reading with
  | .error error, _ => .error error
  | .ok answer, .body => .ok answer
  | .ok answer, .collected read =>
    match answer.body with
    | .bytes _ => .ok answer
    | .replay _ _ | .once _ =>
      match read with
      | .ok data => .ok { answer with body := .bytes data }
      | .error error => .error error

/-- What an endpoint was handed and what came of it: the request's canonical target and
verb, its upstream, the answer, and, for a failure, the clock, the host's ceiling and
whether the cache took it. -/
structure Invoked where
  canonical : Iri
  verb : Verb
  incoming : Option Provenance
  answer : Except Error Representation
  now : Option Time
  ceiling : Nat
  filed : Bool
deriving DecidableEq

/-- The thread a binding change cuts. -/
def bindingsThread : Thread := "urn:kernel:bindings".toList

/-- `Representation::cacheable`. -/
def Representation.cacheable (representation : Representation) : Representation :=
  { representation with expiry := .never }

/-- A description's face: kept until the bindings change and no longer than the description
says, whatever it was rendered or transrepted from. -/
def describedFace (bound : Expiry) (rendered : Representation) : Representation :=
  { rendered.cacheable with
    expiry := rendered.cacheable.expiry.mostRestrictive bound
    threads := rendered.threads.insert bindingsThread }

mutual

/-- One request and how it went. A description comes with the bound it states on itself, what
the renderer gave, and the steps that turn it into the requested type. -/
inductive Node where
  | answered (answer : Representation)
  | failedBefore (failure : CachedFailure)
  | refused (error : Error)
  | invoked (invoked : Invoked) (steps : Steps)
  | described (bound : Expiry) (rendered : Except Error Representation) (turns : Turns)

/-- What an endpoint does through its invocation, in order. -/
inductive Steps where
  | done
  | issue (requested : Iri) (node : Node) (reading : Reading) (rest : Steps)
  | dependsOn (thread : Thread) (rest : Steps)
  | oneShot (rest : Steps)
  | failureExpiresAt (until_ : Time) (rest : Steps)

/-- The steps of `transrept_meta`: each a sub-request that is handed the bytes before it and
collected, unless the transreptor's name is no IRI. -/
inductive Turns where
  | done
  | unparsed (detail : Text)
  | turn (requested : Iri) (node : Node) (read : Except Error (List UInt8)) (rest : Turns)

end

/-- What an issue returns, and the dependencies it hands back beside an error. -/
structure Outcome where
  result : Except Error Representation
  carried : Dependencies
deriving DecidableEq

/-- The detail of the error for an answer that stands for a stored one nobody offered. -/
def unofferedDetail : Text := "answered `revalidated` with no stale answer offered".toList

/-- The kernel's part once the endpoint has answered. -/
def Invoked.outcome (invoked : Invoked) (recorded : Recorded) : Outcome :=
  match invoked.answer with
  | .ok answer =>
    if answer.revalidated then ⟨.error (.endpoint unofferedDetail), .none⟩
    else ⟨.ok (settled invoked.canonical recorded invoked.incoming answer), .none⟩
  | .error error =>
    let depended := recorded.failureDependencies invoked.canonical
    let stored := failureToStore invoked.ceiling invoked.now error recorded.failureUntil depended
      invoked.incoming
    let cached := if invoked.verb.isCacheable && invoked.filed then stored.map Prod.fst else none
    ⟨.error error, failedDependencies depended cached⟩

mutual

def Node.outcome : Node → Outcome
  | .answered answer => ⟨.ok answer, .none⟩
  | .failedBefore failure =>
    ⟨.error failure.error, ⟨.«at» failure.until_, failure.threads, some failure.until_⟩⟩
  | .refused error => ⟨.error error, .none⟩
  | .invoked invoked steps => invoked.outcome (steps.recorded .empty)
  | .described bound rendered turns =>
    match turns.outcome rendered with
    | .ok answer => ⟨.ok (describedFace bound answer), .none⟩
    | .error error => ⟨.error error, .none⟩

/-- What is left of a description after its steps: the first failure, bare, or the last
answer. -/
def Turns.outcome : Turns → Except Error Representation → Except Error Representation
  | _, .error error => .error error
  | .done, .ok current => .ok current
  | .unparsed detail, .ok _ => .error (.endpoint detail)
  | .turn _ node read rest, .ok _ =>
    rest.outcome ((Reading.collected read).received node.outcome.result)

/-- The invocation's record after these steps. -/
def Steps.recorded : Steps → Recorded → Recorded
  | .done, recorded => recorded
  | .issue requested node reading rest, recorded =>
    rest.recorded (recorded.record requested (reading.received node.outcome.result)
      node.outcome.carried)
  | .dependsOn thread rest, recorded => rest.recorded (recorded.dependsOn thread)
  | .oneShot rest, recorded => rest.recorded recorded.oneShot
  | .failureExpiresAt until_ rest, recorded => rest.recorded (recorded.failureExpiresAt until_)

end

/-- A sub-request as its invocation issued it. -/
structure Sub where
  requested : Iri
  node : Node
  reading : Reading

namespace Sub

/-- What the issuing invocation heard of it. -/
def heard (sub : Sub) : Heard :=
  hear sub.requested (sub.reading.received sub.node.outcome.result) sub.node.outcome.carried

/-- A denial, or a failure that was neither a miss nor cached. -/
def Spoiled (sub : Sub) : Prop := sub.heard = .spoiled

/-- An answer with a deadline, or with a thread other than a miss's name: what a collect
that fails as that miss loses. -/
def Loses (answer : Representation) (name : Thread) : Prop :=
  answer.expiry ≠ .never ∨ ∃ thread ∈ answer.threads, thread ≠ name

/-- It was answered, the collect failed as a miss, and something of the answer is lost. -/
def Lost (sub : Sub) : Prop :=
  ∃ answer name carried, sub.node.outcome.result = .ok answer ∧
    sub.heard = .miss name carried ∧ Loses answer name

/-- What it hung from: what was heard of it, and the answer behind a collect that failed
as a miss. -/
def HangsFrom (sub : Sub) (thread : Thread) : Prop :=
  thread ∈ sub.heard.threads ∨
    ∃ answer name carried, sub.node.outcome.result = .ok answer ∧
      sub.heard = .miss name carried ∧ thread ∈ answer.threads

/-- No later than what was heard of it, nor than an answer behind it. -/
def RunsOutBy (sub : Sub) (expiry : Expiry) : Prop :=
  expiry ≤ sub.heard.expiry ∧
    ∀ answer, sub.node.outcome.result = .ok answer → expiry ≤ answer.expiry

end Sub

/-- The sub-requests among an invocation's steps. -/
def Steps.subs : Steps → List Sub
  | .done => []
  | .issue requested node reading rest => ⟨requested, node, reading⟩ :: rest.subs
  | .dependsOn _ rest | .oneShot rest | .failureExpiresAt _ rest => rest.subs

/-- The steps of a description that were issued: those up to the first that fails. -/
def Turns.subs : Turns → Except Error Representation → List Sub
  | _, .error _ => []
  | .done, .ok _ | .unparsed _, .ok _ => []
  | .turn requested node read rest, .ok _ =>
    ⟨requested, node, .collected read⟩ ::
      rest.subs ((Reading.collected read).received node.outcome.result)

/-- A description that could not be rendered issues nothing. -/
theorem Turns.subs_of_error (turns : Turns) (error : Error) : turns.subs (.error error) = [] := by
  cases turns <;> rfl

/-- The sub-requests a request issued itself. -/
def Node.subs : Node → List Sub
  | .invoked _ steps => steps.subs
  | .described _ rendered turns => turns.subs rendered
  | .answered _ | .failedBefore _ | .refused _ => []

/-- A sub-request at any depth. -/
inductive Below (sub : Sub) : Node → Prop where
  | direct (node : Node) (issued : sub ∈ node.subs) : Below sub node
  | deeper (node : Node) (between : Sub) (issued : between ∈ node.subs)
      (below : Below sub between.node) : Below sub node

/-- What is below a request is one of its sub-requests, or below one. -/
theorem below_iff (sub : Sub) (node : Node) :
    Below sub node ↔ ∃ between ∈ node.subs, sub = between ∨ Below sub between.node := by
  constructor
  · intro below
    cases below with
    | direct _ issued => exact ⟨sub, issued, .inl rfl⟩
    | deeper _ between issued below => exact ⟨between, issued, .inr below⟩
  · rintro ⟨between, issued, rfl | below⟩
    · exact .direct node issued
    · exact .deeper node between issued below

/-- A description drops nothing of its steps. One that has its face: no step runs out before
it, and none but the last hangs from anything but the binding thread. One that failed as a
miss: it is the missing name of the step that failed, and the steps hang from nothing else. Any
other failure keeps its caller's answer from being kept at all. -/
def Node.KeepsTurns : Node → Prop
  | .described bound rendered turns =>
    match turns.outcome rendered with
    | .ok _ => (∀ sub ∈ turns.subs rendered, bound ≤ sub.heard.expiry) ∧
        ∀ sub ∈ (turns.subs rendered).dropLast, ∀ thread ∈ sub.heard.threads,
          thread = bindingsThread
    | .error (.unresolved name) => ∀ sub ∈ turns.subs rendered,
        sub.heard.expiry = .never ∧ ∀ thread ∈ sub.heard.threads, thread = name
    | .error (.notFound _) => turns.subs rendered = []
    | .error _ => True
  | .answered _ | .failedBefore _ | .refused _ | .invoked _ _ => True

/-- Nothing of a sub-request is lost on its way: no collect that fails as a miss loses
anything, and no description drops anything of its steps. -/
structure Node.LosesNothing (node : Node) : Prop where
  collects : ∀ sub, Below sub node → ¬sub.Lost
  own : node.KeepsTurns
  turns : ∀ sub, Below sub node → sub.node.KeepsTurns

/-- An answer is no later than any sub-outcome, at any depth; it must not be kept when one
was a denial or a failure neither missed nor cached; and it hangs from all that each of
them hung from, unless it must not be kept because of what lies between. -/
def Propagates (node : Node) (final : Representation) : Prop :=
  ∀ sub, Below sub node → sub.RunsOutBy final.expiry ∧ (sub.Spoiled → final.expiry = .always) ∧
    ∀ thread, sub.HangsFrom thread → thread ∈ final.threads ∨
      ∃ between, between.Spoiled ∧ Below between node ∧ Below sub between.node

theorem Recorded.within_step (recorded : Recorded) (thread : Thread) :
    Recorded.Within recorded (recorded.dependsOn thread) :=
  ⟨le_rfl, fun other member => by simp [Recorded.dependsOn, member]⟩

/-- Later steps lose nothing that was recorded. -/
theorem Steps.within_recorded (steps : Steps) (recorded : Recorded) :
    Recorded.Within recorded (steps.recorded recorded) :=
  match steps with
  | .done => Recorded.Within.refl recorded
  | .issue requested node reading rest => by
    rw [Steps.recorded, Recorded.record_eq]
    exact (recorded.note_keeps _).1.trans (rest.within_recorded _)
  | .dependsOn thread rest => (recorded.within_step thread).trans (rest.within_recorded _)
  | .oneShot rest => (recorded.within_meet .always).trans (rest.within_recorded _)
  | .failureExpiresAt until_ rest =>
    (⟨le_rfl, fun _ => id⟩ : Recorded.Within recorded (recorded.failureExpiresAt until_)).trans
      (rest.within_recorded _)

/-- What was heard of a sub-request is in the record when the steps are through. -/
theorem Steps.recorded_keeps (steps : Steps) (recorded : Recorded) (sub : Sub)
    (issued : sub ∈ steps.subs) : (steps.recorded recorded).expiry ≤ sub.heard.expiry ∧
      ∀ thread ∈ sub.heard.threads, thread ∈ (steps.recorded recorded).threads :=
  match steps with
  | .done => nomatch issued
  | .issue requested node reading rest => by
    rcases List.mem_cons.mp issued with rfl | later
    · rw [Steps.recorded, Recorded.record_eq]
      obtain ⟨_, sooner, threads⟩ := recorded.note_keeps (Sub.heard ⟨requested, node, reading⟩)
      have kept := rest.within_recorded (recorded.note (Sub.heard ⟨requested, node, reading⟩))
      exact ⟨kept.expiry.trans sooner, fun thread member => kept.threads thread
        (threads thread member)⟩
    · exact rest.recorded_keeps _ sub later
  | .dependsOn _ rest => rest.recorded_keeps _ sub issued
  | .oneShot rest => rest.recorded_keeps _ sub issued
  | .failureExpiresAt _ rest => rest.recorded_keeps _ sub issued

/-- A body is read with the expiry and the threads of its answer. -/
theorem Reading.received_ok (reading : Reading) (answer buffer : Representation)
    (taken : reading.received (.ok answer) = .ok buffer) :
    buffer.expiry = answer.expiry ∧ buffer.threads = answer.threads := by
  unfold Reading.received at taken
  split at taken <;> grind

/-- Dependencies are handed back beside errors only. -/
theorem answered_carries_nothing (node : Node) (answer : Representation)
    (came : node.outcome.result = .ok answer) : node.outcome.carried = .none := by
  cases node with
  | answered answer => rfl
  | failedBefore failure => cases came
  | refused error => rfl
  | described bound rendered turns =>
    rw [Node.outcome]
    cases turns.outcome rendered <;> rfl
  | invoked invoked steps =>
    rw [Node.outcome] at came ⊢
    cases given : invoked.answer with
    | ok answer =>
      simp only [Invoked.outcome, given]
      split <;> rfl
    | error error =>
      simp only [Invoked.outcome, given] at came
      cases came

/-- Of an answer an invocation hears the answer, a miss or a spoiled outcome. -/
theorem Sub.heard_of_answer (sub : Sub) (answer : Representation)
    (came : sub.node.outcome.result = .ok answer) :
    (∃ buffer, sub.heard = .answer buffer ∧ buffer.expiry = answer.expiry) ∨
      (∃ name, sub.heard = .miss name .none) ∨ sub.heard = .spoiled := by
  rw [Sub.heard, came, answered_carries_nothing sub.node answer came]
  cases taken : sub.reading.received (.ok answer) with
  | ok buffer => exact .inl ⟨buffer, rfl, (sub.reading.received_ok answer buffer taken).1⟩
  | error error => exact .inr (hear_bare_error sub.requested error)

/-- What is heard of an answer passes on what the answer does, when a collect that failed as a
miss lost nothing of it. -/
theorem hear_answer_passes (requested : Iri) (reading : Reading) (answer : Representation)
    (found : ∀ name carried, hear requested (reading.received (.ok answer)) .none =
      .miss name carried → ¬Sub.Loses answer name) :
    (hear requested (reading.received (.ok answer)) .none).Passes answer.expiry answer.threads := by
  cases taken : reading.received (.ok answer) with
  | ok buffer =>
    have same := reading.received_ok _ buffer taken
    exact ⟨same.1.le, fun _ thread member => by
      simp only [hear, Heard.threads, same.2]
      exact member⟩
  | error error =>
    rw [taken] at found
    rcases hear_bare_error requested error with ⟨name, missed⟩ | spoiled
    · have nothing := found name _ missed
      rw [Sub.Loses, not_or, not_not] at nothing
      rw [missed]
      refine ⟨ge_of_eq nothing.1, ?_⟩
      intro _ thread member
      refine (OrderedSet.mem_insert _ _ _).mpr (.inl ?_)
      by_contra other
      exact nothing.2 ⟨thread, member, other⟩
    · rw [spoiled]
      exact Heard.spoiled_passes _ _

/-- What is heard of an invocation's outcome passes on its record. -/
theorem Invoked.heard_passes (invoked : Invoked) (recorded : Recorded) (requested : Iri)
    (reading : Reading)
    (found : ∀ answer name carried, (invoked.outcome recorded).result = .ok answer →
      hear requested (reading.received (invoked.outcome recorded).result)
        (invoked.outcome recorded).carried = .miss name carried → ¬Sub.Loses answer name) :
    (hear requested (reading.received (invoked.outcome recorded).result)
      (invoked.outcome recorded).carried).Passes recorded.expiry recorded.threads := by
  cases given : invoked.answer with
  | ok answer =>
    by_cases stands : answer.revalidated = true
    · simp only [Invoked.outcome, given, stands, ↓reduceIte]
      exact Heard.spoiled_passes _ _
    · have settles : invoked.outcome recorded =
          ⟨.ok (settled invoked.canonical recorded invoked.incoming answer), .none⟩ := by
        simp only [Invoked.outcome, given, if_neg stands]
      rw [settles] at found ⊢
      obtain ⟨sooner, threads⟩ := settled_keeps invoked.canonical recorded invoked.incoming answer
      exact (hear_answer_passes requested reading _ fun name carried => found _ name carried
        rfl).within sooner threads
  | error error =>
    have fails : ∃ cached, invoked.outcome recorded = ⟨.error error,
        failedDependencies (recorded.failureDependencies invoked.canonical) cached⟩ ∧
          ∀ until_, cached = some until_ → Expiry.«at» until_ ≤ recorded.expiry := by
      refine ⟨_, by simp only [Invoked.outcome, given]; rfl, ?_⟩
      intro until_ cached
      split at cached
      · obtain ⟨⟨_, threads⟩, stored, rfl⟩ := Option.map_eq_some_iff.mp cached
        exact (failure_to_store_spec stored).2.2.1
      · cases cached
    obtain ⟨cached, outcome, sooner⟩ := fails
    obtain ⟨expiry, -, threads⟩ :=
      failed_dependencies_keeps invoked.canonical recorded cached sooner
    rw [outcome]
    exact (hear_error_passes requested error _).within expiry threads

/-- Of a description's steps that all answered, each but the last is among those before it,
and the last brought what the description is made of. -/
theorem Turns.subs_of_ok (turns : Turns) (current last : Representation)
    (came : turns.outcome (.ok current) = .ok last) :
    ∀ sub ∈ turns.subs (.ok current),
      sub ∈ (turns.subs (.ok current)).dropLast ∨ sub.heard = .answer last :=
  match turns with
  | .done | .unparsed _ => by
    intro sub member
    cases member
  | .turn requested node read rest => by
    rw [Turns.outcome] at came
    rw [Turns.subs]
    cases taken : (Reading.collected read).received node.outcome.result with
    | error error =>
      rw [taken, Turns.outcome] at came
      cases came
    | ok buffer =>
      rw [taken] at came
      intro sub member
      cases later : rest.subs (.ok buffer) with
      | nil =>
        rw [later] at member
        obtain rfl := List.mem_singleton.mp member
        -- The only step that was issued: the description is made of what it brought.
        have same : buffer = last := by
          cases rest with
          | done => exact Except.ok.inj came
          | unparsed detail => cases came
          | turn _ _ _ _ => cases later
        right
        rw [Sub.heard, taken, same]
        rfl
      | cons next others =>
        rw [later] at member
        rcases List.mem_cons.mp member with rfl | behind
        · exact .inl List.mem_cons_self
        · rcases rest.subs_of_ok buffer last came sub (later ▸ behind) with earlier | final
          · refine .inl (List.mem_cons_of_mem _ ?_)
            rw [later] at earlier
            exact earlier
          · exact .inr final

/-- What is heard of a description's outcome passes on what was heard of its steps, when it
drops nothing. -/
theorem Turns.heard_passes (bound : Expiry) (rendered : Except Error Representation)
    (turns : Turns) (keeps : (Node.described bound rendered turns).KeepsTurns) (requested : Iri)
    (reading : Reading)
    (found : ∀ answer name carried,
      (Node.described bound rendered turns).outcome.result = .ok answer →
        hear requested (reading.received (Node.described bound rendered turns).outcome.result)
          (Node.described bound rendered turns).outcome.carried = .miss name carried →
            ¬Sub.Loses answer name) :
    ∀ sub ∈ turns.subs rendered,
      (hear requested (reading.received (Node.described bound rendered turns).outcome.result)
        (Node.described bound rendered turns).outcome.carried).Passes sub.heard.expiry
          sub.heard.threads := by
  intro sub issued
  cases rendered with
  | error error =>
    rw [turns.subs_of_error] at issued
    cases issued
  | ok canonical =>
    rw [Node.KeepsTurns] at keeps
    rw [Node.outcome] at found ⊢
    cases came : turns.outcome (.ok canonical) with
    | ok last =>
      rw [came] at keeps found
      obtain ⟨sooner, dropped⟩ := keeps
      refine (hear_answer_passes requested reading _ fun name carried => found _ name carried
        rfl).within (inf_le_right.trans (sooner sub issued)) ?_
      intro thread member
      refine (OrderedSet.mem_insert _ _ _).mpr ?_
      rcases turns.subs_of_ok canonical last came sub issued with earlier | final
      · exact .inl (dropped sub earlier thread member)
      · rw [final] at member
        exact .inr member
    | error error =>
      rw [came] at keeps
      cases error with
      | unresolved name =>
        obtain ⟨lasting, alone⟩ := keeps sub issued
        refine ⟨lasting ▸ le_rfl, ?_⟩
        intro _ thread member
        exact (OrderedSet.mem_insert _ _ _).mpr (.inl (alone thread member))
      | notFound detail =>
        have none : turns.subs (.ok canonical) = [] := keeps
        rw [none] at issued
        cases issued
      | _ => exact Heard.spoiled_passes _ _

/-- What is heard of a request passes on what it heard of its own sub-requests. -/
theorem Node.heard_passes (node : Node) (keeps : node.KeepsTurns) (requested : Iri)
    (reading : Reading)
    (found : ∀ answer name carried, node.outcome.result = .ok answer →
      hear requested (reading.received node.outcome.result) node.outcome.carried =
        .miss name carried → ¬Sub.Loses answer name) (sub : Sub) (issued : sub ∈ node.subs) :
    (hear requested (reading.received node.outcome.result) node.outcome.carried).Passes
      sub.heard.expiry sub.heard.threads := by
  cases node with
  | answered answer => cases issued
  | failedBefore failure => cases issued
  | refused error => cases issued
  | invoked invoked steps =>
    rw [Node.outcome] at found ⊢
    obtain ⟨sooner, threads⟩ := steps.recorded_keeps .empty sub issued
    exact (invoked.heard_passes _ requested reading found).within sooner threads
  | described bound rendered turns =>
    exact turns.heard_passes bound rendered keeps requested reading found sub issued

/-- What is heard of a request is no later than what was heard at any depth, and hangs from all
of it, unless it must not be kept or something between must not. -/
theorem below_passes {sub : Sub} {node : Node} (below : Below sub node)
    (loses : node.LosesNothing) : ∀ (requested : Iri) (reading : Reading),
      (∀ answer name carried, node.outcome.result = .ok answer →
        hear requested (reading.received node.outcome.result) node.outcome.carried =
          .miss name carried → ¬Sub.Loses answer name) →
      (hear requested (reading.received node.outcome.result) node.outcome.carried).expiry ≤
          sub.heard.expiry ∧
        (hear requested (reading.received node.outcome.result) node.outcome.carried ≠ .spoiled →
          ∀ thread ∈ sub.heard.threads,
            thread ∈ (hear requested (reading.received node.outcome.result)
              node.outcome.carried).threads ∨
            ∃ between, between.Spoiled ∧ Below between node ∧ Below sub between.node) := by
  induction below with
  | direct node issued =>
    intro requested reading found
    obtain ⟨sooner, threads⟩ := node.heard_passes loses.own requested reading found sub issued
    exact ⟨sooner, fun kept thread member => .inl (threads kept thread member)⟩
  | deeper node between issued below ih =>
    intro requested reading found
    have inside : ∀ other, Below other between.node → Below other node :=
      fun other => .deeper node between issued
    have here : Below between node := .direct node issued
    have inner : between.node.LosesNothing :=
      ⟨fun other under => loses.collects other (inside other under), loses.turns between here,
        fun other under => loses.turns other (inside other under)⟩
    obtain ⟨innerSooner, innerThreads⟩ := ih inner between.requested between.reading (by
      intro answer name carried came missed lost
      exact loses.collects between here ⟨answer, name, carried, came, missed, lost⟩)
    obtain ⟨sooner, threads⟩ := node.heard_passes loses.own requested reading found between issued
    refine ⟨sooner.trans innerSooner, ?_⟩
    intro kept thread member
    by_cases spoiled : between.Spoiled
    · exact .inr ⟨between, spoiled, here, below⟩
    · rcases innerThreads spoiled thread member with heard | ⟨spoiler, spoils, under, behind⟩
      · exact .inl (threads kept thread heard)
      · exact .inr ⟨spoiler, spoils, inside spoiler under, behind⟩

/-- Where nothing is lost on the way, everything sub-requests hung from reaches the answer. -/
theorem answer_propagates (node : Node) (final : Representation)
    (answered : node.outcome.result = .ok final) (loses : node.LosesNothing) :
    Propagates node final := by
  intro sub below
  -- Taken as it came, the answer is heard as it is.
  have heard : hear [] (Reading.body.received node.outcome.result) node.outcome.carried =
      .answer final := by
    rw [answered]
    rfl
  obtain ⟨limited, threads⟩ := below_passes below loses [] .body (by
    intro answer name carried _ missed
    rw [heard] at missed
    cases missed)
  rw [heard] at limited threads
  have reaches := threads (by rintro ⟨⟩)
  have kept : ∀ behind name carried, sub.node.outcome.result = .ok behind →
      sub.heard = .miss name carried →
        behind.expiry = .never ∧ ∀ thread ∈ behind.threads, thread = name := by
    intro behind name carried came missed
    have whole : ¬Sub.Loses behind name := fun lost =>
      loses.collects sub below ⟨behind, name, carried, came, missed, lost⟩
    rw [Sub.Loses, not_or, not_not] at whole
    exact ⟨whole.1, fun thread member => by_contra fun other => whole.2 ⟨thread, member, other⟩⟩
  refine ⟨⟨limited, ?_⟩, ?_, ?_⟩
  · intro behind came
    rcases sub.heard_of_answer behind came with ⟨buffer, heard, same⟩ | ⟨name, heard⟩ | heard
    · rw [heard] at limited
      exact same ▸ limited
    · rw [(kept behind name _ came heard).1]
      exact Expiry.le_never _
    · rw [heard] at limited
      exact limited.trans (Expiry.always_le _)
  · intro spoiled
    rw [Sub.Spoiled] at spoiled
    rw [spoiled] at limited
    exact Expiry.eq_always_of_le limited
  · rintro thread (member | ⟨behind, name, carried, came, heard, member⟩)
    · exact reaches thread member
    · refine reaches thread ?_
      rw [heard, (kept behind name carried came heard).2 thread member]
      exact (OrderedSet.mem_insert _ _ _).mpr (.inl rfl)

/-!
A composite reads a stream that hangs from a file, the stream ends as not found while it is
collected, and the composite answers anyway. Another one asks for a description whose
transreptor reads a glossary.
-/

namespace LostStreamExample

def file : Thread := "urn:file:feed".toList

def glossary : Thread := "urn:glossary".toList

def text (body : Body) : Representation :=
  ⟨⟨"text/plain".toList, []⟩, body, .never, OrderedSet.empty, none, false⟩

def invoked (canonical : Iri) (answer : Except Error Representation) : Invoked where
  canonical := canonical
  verb := .source
  incoming := none
  answer := answer
  now := none
  ceiling := 0
  filed := false

def feed : Node := .invoked (invoked "urn:feed".toList (.ok (text (.once 0)))) (.dependsOn file .done)

def composite (reading : Reading) : Node :=
  .invoked (invoked "urn:page".toList (.ok (text (.bytes [45]))))
    (.issue "urn:feed".toList feed reading .done)

def answerOf (reading : Reading) : Representation :=
  { text (.bytes [45]) with
    threads := OrderedSet.ofList
      (match reading with
        | .collected (.error _) => ["urn:feed".toList, "urn:page".toList]
        | _ => [file, "urn:feed".toList, "urn:page".toList]) }

/-- The page does not hang from the file the feed hung from, and may be kept for good. -/
theorem failed_collect_is_lost : ¬∀ node final, node.outcome.result = .ok final →
    Propagates node final := by
  intro propagates
  have answered : (composite (.collected (.error (.notFound [])))).outcome.result =
      .ok (answerOf (.collected (.error (.notFound [])))) := by decide
  obtain ⟨-, -, threads⟩ := propagates _ _ answered
    ⟨"urn:feed".toList, feed, .collected (.error (.notFound []))⟩
    (.direct _ (List.mem_singleton.mpr rfl))
  rcases threads file (.inr ⟨_, _, _, rfl, rfl, by decide⟩) with member | ⟨_, spoiled, under, _⟩
  · exact absurd member (by decide)
  · obtain ⟨between, issued, rfl | deeper⟩ := (below_iff _ _).mp under
    · rw [List.mem_singleton.mp issued] at spoiled
      exact absurd spoiled (by rw [Sub.Spoiled]; decide)
    · rw [List.mem_singleton.mp issued] at deeper
      obtain ⟨_, none, _⟩ := (below_iff _ _).mp deeper
      cases none

/-- A description whose transreptor reads the glossary. -/
def doc (answer : Except Error Representation) : Node :=
  .described .never (.ok (text (.bytes [])))
    (.turn "urn:rdfxml".toList
      (.invoked (invoked "urn:rdfxml".toList answer) (.dependsOn glossary .done)) (.ok []) .done)

/-- A page over the feed and the description. -/
def pageOver (answer : Except Error Representation) : Node :=
  .invoked (invoked "urn:page".toList (.ok (text (.bytes [45]))))
    (.issue "urn:feed".toList feed (.collected (.ok [104]))
      (.issue "urn:doc".toList (doc answer) (.collected (.ok [])) .done))

-- A glossary that was not found is forgotten by the page that does without the description.
example : (pageOver (.error (.notFound []))).outcome.result =
    .ok { text (.bytes [45]) with
      threads := OrderedSet.ofList
        [file, "urn:feed".toList, "urn:doc".toList, "urn:page".toList] } := by
  decide

/-- Read to its end, the stream is recorded with all it hung from, and so is a description that
was transrepted in one step that may be kept. -/
theorem whole_collect_propagates :
    Propagates (pageOver (.ok (text (.bytes [60]))))
      { text (.bytes [45]) with
        threads := OrderedSet.ofList [file, "urn:feed".toList, glossary, "urn:rdfxml".toList,
          bindingsThread, "urn:page".toList] } := by
  have inside : ∀ sub, Below sub (pageOver (.ok (text (.bytes [60])))) →
      sub = ⟨"urn:feed".toList, feed, .collected (.ok [104])⟩ ∨
        sub = ⟨"urn:doc".toList, doc (.ok (text (.bytes [60]))), .collected (.ok [])⟩ ∨
        sub ∈ (doc (.ok (text (.bytes [60])))).subs := by
    intro sub below
    obtain ⟨between, issued, same⟩ := (below_iff _ _).mp below
    rcases List.mem_cons.mp issued with rfl | issued
    · rcases same with rfl | deeper
      · exact .inl rfl
      · obtain ⟨_, none, _⟩ := (below_iff _ _).mp deeper
        cases none
    · obtain rfl := List.mem_singleton.mp issued
      rcases same with rfl | deeper
      · exact .inr (.inl rfl)
      · obtain ⟨step, turn, rfl | none⟩ := (below_iff _ _).mp deeper
        · exact .inr (.inr turn)
        · obtain rfl := List.mem_singleton.mp turn
          obtain ⟨_, none, _⟩ := (below_iff _ _).mp none
          cases none
  refine answer_propagates _ _ (by decide) ⟨?_, trivial, ?_⟩
  · rintro sub below ⟨answer, name, carried, -, missed, -⟩
    rcases inside sub below with rfl | rfl | turn
    · cases missed
    · cases missed
    · rw [List.mem_singleton.mp turn] at missed
      cases missed
  · intro sub below
    rcases inside sub below with rfl | rfl | turn
    · exact trivial
    · refine ⟨fun step turn => ?_, fun step turn => ?_⟩
      · have lasts : step.heard.expiry = .never := by
          rw [List.mem_singleton.mp turn]
          decide
        exact lasts.ge
      · cases turn
    · rw [List.mem_singleton.mp turn]
      exact trivial

end LostStreamExample

end Ikigai
