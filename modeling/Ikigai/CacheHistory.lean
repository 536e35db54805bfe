import Ikigai.CacheFrame

/-!
# Runs of the cache

A run is any sequence of the cache's operations, by any number of requests, under any
policy: one step for each hold of the lock. A snapshot is a step of its own, so that what
came after it can be told from what came before. Recording a cut and publishing its number
are two steps, since a snapshot may be read between them.
-/

namespace Ikigai

variable {π : Type}

/-- One operation on the cache. -/
inductive CacheOp where
  | snapshot
  | recordCut (thread : Thread)
  | publish
  | cutWith (thread : Thread)
  | store (key : CacheKey) (target : Text) (representation : Representation) (taken : Nat)
      (costMillis : Option Nat) (incoming : Option Provenance)
  | storeFailure (key : CacheKey) (target : Text) (error : Error) (until_ : Time)
      (threads : ThreadSet) (taken : Nat) (incoming : Option Provenance)
  | get (key : CacheKey) (now : Option Time)
  | getBody (key : CacheKey) (now : Option Time)
  | lookup (key : CacheKey) (now : Option Time) (buffer : Bool) (incoming : Option Provenance)
      (offer : Bool)
  | getFailure (key : CacheKey) (now : Option Time) (incoming : Option Provenance)
  | discard (key : CacheKey) (offer : Option Offer)

/-- What an operation answers. -/
inductive CacheAnswer where
  | done
  | snapshot (taken : Nat)
  | dependents (seq : Nat) (dependents : List Dependent)
  | stored (outcome : Except Declined Unit)
  | served (answer : Served Representation)
  | answered (answer : Served Answer)
  | failed (failure : Option CachedFailure)

namespace ReprCache

variable [CachePolicy π]

def perform (cache : ReprCache π) : CacheOp → ReprCache π × CacheAnswer
  | .snapshot => (cache, .snapshot cache.snapshot)
  | .recordCut thread => (cache.cut thread, .done)
  | .publish => (cache.publish, .done)
  | .cutWith thread =>
    ((cache.cutWith thread).1, .dependents (cache.cutWith thread).2.1 (cache.cutWith thread).2.2)
  | .store key target representation taken costMillis incoming =>
    let outcome := cache.storeOutcome key target representation taken costMillis incoming
    (outcome.1, .stored outcome.2)
  | .storeFailure key target error until_ threads taken incoming =>
    let outcome := cache.storeFailure key target error until_ threads taken incoming
    (outcome.1, .stored outcome.2)
  | .get key now => ((cache.get key now).1, .served (cache.get key now).2)
  | .getBody key now => ((cache.getBody key now).1, .served (cache.getBody key now).2)
  | .lookup key now buffer incoming offer =>
    let found := cache.lookup key now buffer incoming offer
    (found.1, .answered found.2)
  | .getFailure key now incoming =>
    ((cache.getFailure key now incoming).1, .failed (cache.getFailure key now incoming).2)
  | .discard key offer => (cache.discard key offer, .done)

/-- The cache after a run from empty. -/
def after (policy : π) (ops : List CacheOp) : ReprCache π :=
  ops.foldl (fun cache op => (cache.perform op).1) (new policy)

theorem after_concat (policy : π) (ops : List CacheOp) (op : CacheOp) :
    after policy (ops ++ [op]) = ((after policy ops).perform op).1 := by
  rw [after, List.foldl_append]
  rfl

/-- What every call of a policy keeps of it, a round of eviction keeps. -/
theorem enforce_round_policy (kept : π → Prop)
    (victim : ∀ policy resident, kept policy → kept (CachePolicy.victim policy resident).2)
    (overPartition : ∀ policy resident, kept policy →
      kept (CachePolicy.overPartition policy resident).2)
    (bound : CacheBound) (partitioned : Bool) (cache : ReprCache π) (holds : kept cache.policy) :
    kept (enforceRound bound partitioned cache).1.policy := by
  rw [enforceRound]
  extract_lets facts asked chosen
  have asks : kept asked.2 := by
    simp only [asked]
    split
    · exact holds
    · exact overPartition _ _ holds
  split
  · exact holds
  · split
    · exact asks
    · split
      · exact victim _ _ asks
      · exact victim _ _ asks

/-- What every call of a policy keeps of it, every operation keeps. -/
theorem perform_policy (kept : π → Prop)
    (admits : ∀ policy candidate, kept policy → kept (CachePolicy.admits policy candidate).2)
    (contest : ∀ policy candidate resident, kept policy →
      kept (CachePolicy.contest policy candidate resident).2)
    (victim : ∀ policy resident, kept policy → kept (CachePolicy.victim policy resident).2)
    (overPartition : ∀ policy resident, kept policy →
      kept (CachePolicy.overPartition policy resident).2)
    (cache : ReprCache π) (op : CacheOp) (holds : kept cache.policy) :
    kept (cache.perform op).1.policy := by
  cases op with
  | snapshot => exact holds
  | publish => exact holds
  | recordCut thread => exact holds
  | cutWith thread => exact holds
  | store key target representation taken costMillis incoming =>
    have contested : kept (askContest cache.state (CachePolicy.admits cache.policy
        (candidateFacts cache.state key target representation costMillis)).2 key
          (candidateFacts cache.state key target representation costMillis)).2 := by
      rw [askContest]
      split
      · exact admits _ _ holds
      · split
        · exact contest _ _ _ (admits _ _ holds)
        · exact admits _ _ holds
    rcases store_outcome_cases cache key target representation taken costMillis incoming with
      ⟨tick, remembers, declined, _, remembered, outcome⟩ |
        ⟨remembers, enforced, _, _, _, asked, rfl, outcome⟩
    · simp only [perform, outcome]
      rcases remembered with rfl | rfl | rfl
      · exact holds
      · exact admits _ _ holds
      · exact contested
    · simp only [perform, outcome]
      rw [asked] at contested
      exact Rounds.rounds_keep (fun after : ReprCache π => kept after.policy)
        (fun after before => enforce_round_policy kept victim overPartition _ _ after before)
        _ _ contested
  | storeFailure key target error until_ threads taken incoming =>
    rcases store_failure_cases cache key target error until_ threads taken incoming with
      ⟨declined, outcome⟩ | ⟨_, room, _, outcome⟩ <;> simp only [perform, outcome] <;> exact holds
  | get key now =>
    have spec := (serve_or_offer_spec cache key now
      (fun entry => entry.representation.copied) fun _ => none).2.1
    exact (congrArg ReprCache.policy spec :) ▸ holds
  | getBody key now =>
    have spec := (serve_or_offer_spec cache key now
      (fun entry => entry.representation.share) fun _ => none).2.1
    exact (congrArg ReprCache.policy spec :) ▸ holds
  | lookup key now buffer incoming offer =>
    have spec := (serve_or_offer_spec cache key now (answerFace buffer incoming)
      (offerFace offer incoming)).2.1
    exact (congrArg ReprCache.policy spec :) ▸ holds
  | getFailure key now incoming =>
    have spec := (get_failure_spec cache key now incoming).2.1
    exact (congrArg ReprCache.policy spec :) ▸ holds
  | discard key offer =>
    have spec := (discard_trims cache key offer).2
    exact (congrArg ReprCache.policy spec :) ▸ holds

/-- What every call of a policy keeps of it, every run keeps. -/
theorem after_policy (kept : π → Prop)
    (admits : ∀ policy candidate, kept policy → kept (CachePolicy.admits policy candidate).2)
    (contest : ∀ policy candidate resident, kept policy →
      kept (CachePolicy.contest policy candidate resident).2)
    (victim : ∀ policy resident, kept policy → kept (CachePolicy.victim policy resident).2)
    (overPartition : ∀ policy resident, kept policy →
      kept (CachePolicy.overPartition policy resident).2)
    (policy : π) (ops : List CacheOp) (holds : kept policy) : kept (after policy ops).policy := by
  induction ops using List.reverseRecOn with
  | nil => exact holds
  | append_singleton ops op ih =>
    rw [after_concat]
    exact perform_policy kept admits contest victim overPartition _ op ih

end ReprCache

/-- The thread an operation cuts. -/
def CacheOp.cutThread : CacheOp → Option Thread
  | .recordCut thread | .cutWith thread => some thread
  | _ => none

/-- The cuts of a run, in order. -/
def cutsOf (ops : List CacheOp) : List Thread := ops.filterMap CacheOp.cutThread

/-- Something the cache can hold under a key: an answer or a failure. -/
inductive Held where
  | answer (representation : Representation)
  | failed (failure : CachedFailure)
deriving DecidableEq

namespace Held

def threads : Held → ThreadSet
  | .answer representation => representation.threads
  | .failed failure => failure.threads

def isFailure : Held → Bool
  | .answer _ => false
  | .failed _ => true

end Held

/-- What a store offers to hold, under which key, and the snapshot it was computed
after. -/
structure Filing where
  key : CacheKey
  held : Held
  taken : Nat

/-- What an operation offers the cache to hold. -/
def CacheOp.filing : CacheOp → Option Filing
  | .store key _ representation taken _ _ => some ⟨key, .answer representation, taken⟩
  | .storeFailure key _ error until_ threads taken _ =>
    some ⟨key, .failed ⟨error, until_, threads⟩, taken⟩
  | _ => none

/-- What a reader is served by an operation on a key, out of the cache. -/
def CacheAnswer.serves : CacheAnswer → Option Held
  | .served (.hit representation) => some (.answer representation)
  | .answered (.hit (.body representation)) => some (.answer representation)
  | .answered (.hit (.buffer representation)) => some (.answer representation)
  | .failed (some failure) => some (.failed failure)
  | _ => none

/-- The key an operation reads. -/
def CacheOp.reads : CacheOp → Option CacheKey
  | .get key _ | .getBody key _ | .lookup key _ _ _ _ | .getFailure key _ _ => some key
  | _ => none

/-- An operation took what it offered to hold. -/
def CacheAnswer.took : CacheAnswer → Bool
  | .stored (.ok ()) => true
  | _ => false

section Filed

variable [CachePolicy π]

/-- An operation that files under a key, as an answer or as a failure, and succeeds. -/
def Files (cache : ReprCache π) (op : CacheOp) (key : CacheKey) (failure : Bool) : Prop :=
  ∃ filing, op.filing = some filing ∧ filing.key = key ∧ filing.held.isFailure = failure ∧
    (cache.perform op).2.took = true

/-- A filing is the last of its kind under its key in a run: an operation took it, and none
after it took another. -/
def LastFiled (policy : π) (ops : List CacheOp) (filing : Filing) : Prop :=
  ∃ early op late, ops = early ++ op :: late ∧ op.filing = some filing ∧
    ((ReprCache.after policy early).perform op).2.took = true ∧
    ∀ ahead again behind, late = ahead ++ again :: behind →
      ¬Files (ReprCache.after policy (early ++ op :: ahead)) again filing.key filing.held.isFailure

end Filed

end Ikigai
