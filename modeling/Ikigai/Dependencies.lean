import Ikigai.ReprCache

/-!
# Dependencies

What one invocation records of its sub-requests, and what the kernel makes of the record
once the endpoint has answered: the effective expiry and threads of an answer, and what a
failure hands to a caller that catches it. Expiries are ordered by how soon they run out,
and the kernel's meet is the meet of that order. The names kept for the notes on why an
answer was not cached are left out.
-/

namespace Ikigai

namespace Expiry

instance : Min Expiry := ⟨mostRestrictive⟩

/-- The more restrictive of two is the smaller. -/
theorem min_eq (first second : Expiry) : min first second = first.mostRestrictive second := rfl

/-- It does not matter which of two is named first. -/
theorem min_comm (first second : Expiry) : min first second = min second first := by
  cases first <;> cases second <;> simp [min_eq, mostRestrictive, Nat.min_comm]

/-- It does not matter which two of three are compared first. -/
theorem min_assoc (first second third : Expiry) :
    min (min first second) third = min first (min second third) := by
  cases first <;> cases second <;> cases third <;>
    simp [min_eq, mostRestrictive, Nat.min_assoc]

/-- It does not matter how often one is named. -/
theorem min_self (expiry : Expiry) : min expiry expiry = expiry := by
  cases expiry <;> simp [min_eq, mostRestrictive]

/-- Sooner is lower, and the meet is the sooner of two. -/
instance : SemilatticeInf Expiry := SemilatticeInf.mk' min_comm min_assoc min_self

/-- So the more restrictive is the meet. -/
theorem inf_eq (first second : Expiry) : first ⊓ second = first.mostRestrictive second := rfl

/-- And one is at most the other when it is the more restrictive of the two. -/
theorem le_iff (first second : Expiry) : first ≤ second ↔ first.mostRestrictive second = first := by
  rw [← inf_eq]
  exact inf_eq_left.symm

instance : OrderTop Expiry where
  top := .never
  le_top expiry := by cases expiry <;> rfl

instance : OrderBot Expiry where
  bot := .always
  bot_le expiry := by cases expiry <;> rfl

/-- Nothing outlasts what never expires. -/
theorem le_never (expiry : Expiry) : expiry ≤ .never := le_top

/-- What is always expired is outlasted by everything. -/
theorem always_le (expiry : Expiry) : .always ≤ expiry := bot_le

/-- Two deadlines compare as their times do. -/
theorem at_le_at_iff (first second : Time) :
    Expiry.«at» first ≤ .«at» second ↔ first ≤ second := by
  simp [le_iff, mostRestrictive]

/-- Nothing is sooner than at once. -/
theorem eq_always_of_le {expiry : Expiry} (sooner : expiry ≤ .always) : expiry = .always :=
  le_bot_iff.mp sooner

end Expiry

/-- What a resolution depended on before it failed. -/
structure Dependencies where
  expiry : Expiry
  threads : ThreadSet
  failureUntil : Option Time
deriving DecidableEq

/-- `Dependencies::none`. -/
def Dependencies.none : Dependencies := ⟨.never, OrderedSet.empty, Option.none⟩

/-- What an invocation accumulated while its endpoint ran. -/
structure Recorded where
  expiry : Expiry
  threads : ThreadSet
  failureUntil : Option Time
deriving DecidableEq

/-- Whether a failed sub-request was refused, or failed in any other way but a miss. -/
inductive DepKind where
  | denied
  | failed
deriving DecidableEq, Repr

def Error.depKind : Error → DepKind
  | .denied _ => .denied
  | _ => .failed

namespace Recorded

def empty : Recorded := ⟨.never, OrderedSet.empty, none⟩

/-- `Deps::meet`. -/
def meet (recorded : Recorded) (expiry : Expiry) : Recorded :=
  { recorded with expiry := recorded.expiry.mostRestrictive expiry }

def extend (recorded : Recorded) (threads : ThreadSet) : Recorded :=
  { recorded with threads := recorded.threads.extend threads.items }

/-- A miss: an edge on the missing name, and whatever the failed resolution hung from. -/
def recordMiss (recorded : Recorded) (name : Thread) (carried : Dependencies) : Recorded :=
  let limited := if carried.expiry ≠ .never then recorded.meet carried.expiry else recorded
  { limited with threads := (limited.threads.insert name).extend carried.threads.items }

/-- The outcome of one sub-request, whether or not it succeeded. -/
def record (recorded : Recorded) (requested : Iri) (result : Except Error Representation)
    (carried : Dependencies) : Recorded :=
  match result with
  | .ok answer => (recorded.meet answer.expiry).extend answer.threads
  | .error (.unresolved canonical) => recorded.recordMiss canonical carried
  | .error (.notFound _) => recorded.recordMiss requested carried
  | .error error =>
    let cached :=
      match carried.failureUntil with
      | some until_ =>
        if error.depKind = .failed then (Expiry.«at» until_).mostRestrictive carried.expiry
        else .always
      | none => .always
    if cached = .always then recorded.meet cached
    else (recorded.meet cached).extend carried.threads

/-- The invocation read a body that can be read once. -/
def oneShot (recorded : Recorded) : Recorded := recorded.meet .always

/-- The endpoint names a thread its answer depends on. -/
def dependsOn (recorded : Recorded) (thread : Thread) : Recorded :=
  { recorded with threads := recorded.threads.insert thread }

/-- The endpoint states until when a failure of this invocation may be cached. -/
def failureExpiresAt (recorded : Recorded) (until_ : Time) : Recorded :=
  { recorded with
    failureUntil := some (recorded.failureUntil.elim until_ fun earlier => min earlier until_) }

/-- What the failed invocation of a canonical target depended on. -/
def failureDependencies (recorded : Recorded) (canonical : Iri) : Dependencies :=
  ⟨recorded.expiry, recorded.threads.insert canonical, none⟩

end Recorded

/-- An answer with the expiry and threads of everything it was computed from. -/
def settled (canonical : Iri) (recorded : Recorded) (incoming : Option Provenance)
    (answer : Representation) : Representation :=
  let effective := answer.expiry.mostRestrictive recorded.expiry
  let joined := answer.threads.extend recorded.threads.items
  let threads := if effective ≠ .always then joined.insert canonical else joined
  match incoming with
  | some incoming =>
    { answer with
      expiry := effective.mostRestrictive incoming.expiry
      threads := threads.extend incoming.threads.items }
  | none => { answer with expiry := effective, threads := threads }

/-- Errors that are never cached, whatever their endpoint states. -/
def Error.uncacheable : Error → Bool
  | .denied _ | .notFound _ | .unresolved _ | .depthExceeded _ _ => true
  | _ => false

/-- Until when a failure may be cached, and the threads it hangs from: as stated, within
the host's ceiling, and no later than anything it depended on. -/
def failureToStore (ceiling : Nat) (now : Option Time) (error : Error) (stated : Option Time)
    (depended : Dependencies) (incoming : Option Provenance) : Option (Time × ThreadSet) :=
  match stated, now with
  | some stated, some now =>
    if error.uncacheable then none
    else
      let own := (Expiry.«at» (min stated (saturatingAdd now (min ceiling wordMax)))).mostRestrictive
        depended.expiry
      let expiry := incoming.elim own fun incoming => own.mostRestrictive incoming.expiry
      let threads := incoming.elim depended.threads fun incoming =>
        depended.threads.extend incoming.threads.items
      match expiry with
      | .«at» until_ => if until_ ≤ now then none else some (until_, threads)
      | .always | .never => none
  | _, _ => none

/-- What a failure hands to its caller, once it is known whether it was cached. -/
def failedDependencies (depended : Dependencies) (cached : Option Time) : Dependencies :=
  match cached with
  | some until_ => { depended with failureUntil := some until_, expiry := .«at» until_ }
  | none => depended

namespace Recorded

/-- One record holds all another does. -/
structure Within (before after : Recorded) : Prop where
  expiry : after.expiry ≤ before.expiry
  threads : ∀ thread ∈ before.threads, thread ∈ after.threads

/-- A record is within itself. -/
theorem Within.refl (recorded : Recorded) : Within recorded recorded :=
  ⟨le_rfl, fun _ => id⟩

/-- What is within a record within another is within that. -/
theorem Within.trans {first second third : Recorded} (earlier : Within first second)
    (later : Within second third) : Within first third :=
  ⟨later.expiry.trans earlier.expiry, fun thread member =>
    later.threads thread (earlier.threads thread member)⟩

/-- Meeting an expiry only adds to a record. -/
theorem within_meet (recorded : Recorded) (expiry : Expiry) :
    Within recorded (recorded.meet expiry) :=
  ⟨inf_le_left, fun _ => id⟩

/-- A record that has met an expiry expires no later. -/
theorem meet_le (recorded : Recorded) (expiry : Expiry) : (recorded.meet expiry).expiry ≤ expiry :=
  inf_le_right

/-- Extending a record only adds threads. -/
theorem within_extend (recorded : Recorded) (threads : ThreadSet) :
    Within recorded (recorded.extend threads) :=
  ⟨le_rfl, fun thread member => by simp [extend, member]⟩

/-- An extended record has all the threads it was extended by. -/
theorem mem_extend (recorded : Recorded) (threads : ThreadSet) (thread : Thread)
    (member : thread ∈ threads) : thread ∈ (recorded.extend threads).threads := by
  simp only [extend, OrderedSet.mem_extend, OrderedSet.mem_items]
  exact .inr member

/-- A miss only adds its name and what it carried. -/
theorem within_record_miss (recorded : Recorded) (name : Thread) (carried : Dependencies) :
    Within recorded (recorded.recordMiss name carried) := by
  constructor
  · simp only [recordMiss]
    split
    · exact inf_le_left
    · exact le_rfl
  · intro thread member
    simp only [recordMiss, OrderedSet.mem_extend, OrderedSet.mem_insert]
    refine .inl (.inr ?_)
    split <;> exact member

/-- A miss is recorded with its name, the threads it carries and their expiry. -/
theorem record_miss_keeps (recorded : Recorded) (name : Thread) (carried : Dependencies) :
    (recorded.recordMiss name carried).expiry ≤ carried.expiry ∧
      name ∈ (recorded.recordMiss name carried).threads ∧
      ∀ thread ∈ carried.threads, thread ∈ (recorded.recordMiss name carried).threads := by
  refine ⟨?_, ?_, ?_⟩
  · simp only [recordMiss]
    split
    · exact inf_le_right
    · rename_i unlimited
      rw [not_not] at unlimited
      rw [unlimited]
      exact Expiry.le_never _
  · simp [recordMiss]
  · intro thread member
    simp only [recordMiss, OrderedSet.mem_extend, OrderedSet.mem_items]
    exact .inr member

end Recorded

/-- An answer, a miss, a failure cached until a time, or anything else that failed. -/
inductive Heard where
  | answer (given : Representation)
  | miss (name : Thread) (carried : Dependencies)
  | cached (expiry : Expiry) (threads : ThreadSet)
  | spoiled
deriving DecidableEq

/-- A failure other than a miss: cached until a time, or spoiling the answer. -/
def hearFailure (kind : DepKind) (carried : Dependencies) : Heard :=
  match carried.failureUntil with
  | some until_ =>
    let cached := (Expiry.«at» until_).mostRestrictive carried.expiry
    if kind = .failed ∧ cached ≠ .always then .cached cached carried.threads else .spoiled
  | none => .spoiled

/-- The outcome of a sub-request by what it does to the record. -/
def hear (requested : Iri) (result : Except Error Representation) (carried : Dependencies) :
    Heard :=
  match result with
  | .ok answer => .answer answer
  | .error (.unresolved canonical) => .miss canonical carried
  | .error (.notFound _) => .miss requested carried
  | .error error => hearFailure error.depKind carried

namespace Heard

/-- What the outcome hung from. -/
def threads : Heard → ThreadSet
  | .answer given => given.threads
  | .miss name carried => carried.threads.insert name
  | .cached _ threads => threads
  | .spoiled => OrderedSet.empty

/-- When what the outcome says runs out. -/
def expiry : Heard → Expiry
  | .answer given => given.expiry
  | .miss _ carried => carried.expiry
  | .cached expiry _ => expiry
  | .spoiled => .always

end Heard

/-- What is heard passes on what something runs out by and hangs from: it is no later, and
hangs from all of it unless it must not be kept. -/
def Heard.Passes (heard : Heard) (expiry : Expiry) (threads : ThreadSet) : Prop :=
  heard.expiry ≤ expiry ∧ (heard ≠ .spoiled → ∀ thread ∈ threads, thread ∈ heard.threads)

/-- An outcome that must not be kept passes on anything. -/
theorem Heard.spoiled_passes (expiry : Expiry) (threads : ThreadSet) :
    Heard.spoiled.Passes expiry threads :=
  ⟨Expiry.always_le _, fun kept => absurd rfl kept⟩

/-- What passes on something passes on whatever that keeps. -/
theorem Heard.Passes.within {heard : Heard} {expiry sooner : Expiry} {threads fewer : ThreadSet}
    (passes : heard.Passes sooner threads) (less : sooner ≤ expiry)
    (more : ∀ thread ∈ fewer, thread ∈ threads) : heard.Passes expiry fewer :=
  ⟨passes.1.trans less, fun kept thread member => passes.2 kept thread (more thread member)⟩

/-- A failure that is no miss, cached or not, passes on what it carries. -/
theorem hear_failure_passes (kind : DepKind) (carried : Dependencies) :
    (hearFailure kind carried).Passes carried.expiry carried.threads := by
  unfold hearFailure
  cases carried.failureUntil with
  | none => exact Heard.spoiled_passes _ _
  | some until_ =>
    dsimp only
    split
    · exact ⟨inf_le_right, fun _ _ member => member⟩
    · exact Heard.spoiled_passes _ _

/-- What is heard of a failure passes on what it carries. -/
theorem hear_error_passes (requested : Iri) (error : Error) (carried : Dependencies) :
    (hear requested (.error error) carried).Passes carried.expiry carried.threads := by
  have missed : ∀ name, (Heard.miss name carried).Passes carried.expiry carried.threads :=
    fun name => ⟨le_rfl, fun _ thread member => (OrderedSet.mem_insert _ _ _).mpr (.inr member)⟩
  cases error with
  | unresolved canonical => exact missed canonical
  | notFound detail => exact missed requested
  | _ => exact hear_failure_passes _ carried

/-- A failure that carries nothing is a miss, or spoils the answer. -/
theorem hear_bare_error (requested : Iri) (error : Error) :
    (∃ name, hear requested (.error error) .none = .miss name .none) ∨
      hear requested (.error error) .none = .spoiled := by
  cases error with
  | unresolved canonical => exact .inl ⟨canonical, rfl⟩
  | notFound detail => exact .inl ⟨requested, rfl⟩
  | _ => exact .inr rfl

namespace Recorded

/-- The record after a sub-request, by what was heard of it. -/
def note (recorded : Recorded) : Heard → Recorded
  | .answer answer => (recorded.meet answer.expiry).extend answer.threads
  | .miss name carried => recorded.recordMiss name carried
  | .cached expiry threads => (recorded.meet expiry).extend threads
  | .spoiled => recorded.meet .always

/-- Recording is noting what was heard. -/
theorem record_eq (recorded : Recorded) (requested : Iri)
    (result : Except Error Representation) (carried : Dependencies) :
    recorded.record requested result carried = recorded.note (hear requested result carried) := by
  cases result with
  | ok answer => rfl
  | error error =>
    cases held : carried.failureUntil with
    | none => cases error <;> simp [record, hear, hearFailure, held, note]
    | some until_ =>
      by_cases spoils : (Expiry.«at» until_).mostRestrictive carried.expiry = .always <;>
        cases error <;> simp [record, hear, hearFailure, held, note, Error.depKind, spoils]

/-- A record loses nothing it had, and keeps all that was heard. -/
theorem note_keeps (recorded : Recorded) (heard : Heard) :
    Within recorded (recorded.note heard) ∧ (recorded.note heard).expiry ≤ heard.expiry ∧
      ∀ thread ∈ heard.threads, thread ∈ (recorded.note heard).threads := by
  cases heard with
  | answer answer =>
    exact ⟨(recorded.within_meet _).trans (within_extend _ _), recorded.meet_le _,
      mem_extend _ _⟩
  | miss name carried =>
    obtain ⟨sooner, named, threads⟩ := recorded.record_miss_keeps name carried
    refine ⟨recorded.within_record_miss name carried, sooner, ?_⟩
    intro thread member
    rcases (OrderedSet.mem_insert _ _ _).mp member with rfl | member
    · exact named
    · exact threads thread member
  | cached expiry threads =>
    exact ⟨(recorded.within_meet _).trans (within_extend _ _), recorded.meet_le _,
      mem_extend _ _⟩
  | spoiled => exact ⟨recorded.within_meet _, recorded.meet_le _, nofun⟩

end Recorded

/-- An answer is no later than what its invocation recorded, and hangs from all of it. -/
theorem settled_keeps (canonical : Iri) (recorded : Recorded) (incoming : Option Provenance)
    (answer : Representation) :
    (settled canonical recorded incoming answer).expiry ≤ recorded.expiry ∧
      ∀ thread ∈ recorded.threads,
        thread ∈ (settled canonical recorded incoming answer).threads := by
  have joined : ∀ thread ∈ recorded.threads, thread ∈
      (if answer.expiry.mostRestrictive recorded.expiry ≠ .always then
        (answer.threads.extend recorded.threads.items).insert canonical
      else answer.threads.extend recorded.threads.items) := by
    intro thread member
    split <;> simp [member, OrderedSet.mem_items]
  cases incoming with
  | none => exact ⟨inf_le_right, joined⟩
  | some incoming =>
    refine ⟨inf_le_left.trans inf_le_right, ?_⟩
    intro thread member
    exact (OrderedSet.mem_extend _ _ _).mpr (.inl (joined thread member))

/-- An answer that may be kept at all hangs from its own name. -/
theorem settled_own_thread (canonical : Iri) (recorded : Recorded)
    (incoming : Option Provenance) (answer : Representation)
    (kept : (settled canonical recorded incoming answer).expiry ≠ .always) :
    canonical ∈ (settled canonical recorded incoming answer).threads := by
  have effective : answer.expiry.mostRestrictive recorded.expiry ≠ .always := by
    intro spoiled
    cases incoming with
    | none => exact kept (by simp [settled, spoiled])
    | some incoming =>
      refine kept ?_
      simp only [settled]
      rw [spoiled]
      rfl
  cases incoming with
  | none => simp [settled, effective]
  | some incoming => simp [settled, effective]

/-- What a failed invocation hands over is no later than its record, and hangs from all of
it, if the failure was cached no later than that. -/
theorem failed_dependencies_keeps (canonical : Iri) (recorded : Recorded) (cached : Option Time)
    (sooner : ∀ until_, cached = some until_ → Expiry.«at» until_ ≤ recorded.expiry) :
    (failedDependencies (recorded.failureDependencies canonical) cached).expiry ≤ recorded.expiry ∧
      canonical ∈ (failedDependencies (recorded.failureDependencies canonical) cached).threads ∧
      ∀ thread ∈ recorded.threads, thread ∈
        (failedDependencies (recorded.failureDependencies canonical) cached).threads := by
  cases cached with
  | none =>
    exact ⟨le_rfl, by simp [failedDependencies, Recorded.failureDependencies],
      fun thread member => by simp [failedDependencies, Recorded.failureDependencies, member]⟩
  | some until_ =>
    exact ⟨sooner until_ rfl, by simp [failedDependencies, Recorded.failureDependencies],
      fun thread member => by simp [failedDependencies, Recorded.failureDependencies, member]⟩

/-- A failure is stored until no later than stated, than the ceiling, and than anything it
depended on; it hangs from all the failed invocation did. -/
theorem failure_to_store_spec {ceiling : Nat} {now : Option Time} {error : Error}
    {stated : Option Time} {depended : Dependencies} {incoming : Option Provenance}
    {until_ : Time} {threads : ThreadSet}
    (stored : failureToStore ceiling now error stated depended incoming =
      some (until_, threads)) :
    error.uncacheable = false ∧
      (∃ said read, stated = some said ∧ now = some read ∧ until_ ≤ said ∧
        until_ ≤ saturatingAdd read (min ceiling wordMax) ∧ read < until_) ∧
      Expiry.«at» until_ ≤ depended.expiry ∧
      (∀ upstream, incoming = some upstream →
        Expiry.«at» until_ ≤ upstream.expiry ∧ ∀ thread ∈ upstream.threads, thread ∈ threads) ∧
      ∀ thread ∈ depended.threads, thread ∈ threads := by
  cases stated with
  | none => simp [failureToStore] at stored
  | some said =>
    cases now with
    | none => simp [failureToStore] at stored
    | some read =>
      simp only [failureToStore] at stored
      split at stored
      · cases stored
      rename_i cacheable
      rw [Bool.not_eq_true] at cacheable
      split at stored
      · rename_i deadline met
        split at stored
        · cases stored
        rename_i ahead
        simp only [Option.some.injEq, Prod.mk.injEq] at stored
        obtain ⟨rfl, rfl⟩ := stored
        have own : Expiry.«at» deadline ≤ (Expiry.«at» (min said
            (saturatingAdd read (min ceiling wordMax)))).mostRestrictive depended.expiry := by
          rw [← met]
          cases incoming with
          | none => exact le_rfl
          | some upstream => exact inf_le_left
        have stated := (Expiry.at_le_at_iff _ _).mp (own.trans inf_le_left)
        refine ⟨cacheable, ⟨said, read, rfl, rfl, stated.trans (min_le_left _ _),
          stated.trans (min_le_right _ _), not_le.mp ahead⟩, own.trans inf_le_right, ?_, ?_⟩
        · rintro upstream rfl
          refine ⟨?_, ?_⟩
          · rw [← met]
            exact inf_le_right
          · intro thread member
            simp [member, OrderedSet.mem_items]
        · intro thread member
          cases incoming with
          | none => exact member
          | some upstream => simp [member, OrderedSet.mem_items]
      · cases stored
      · cases stored

end Ikigai
