import Ikigai.KernelRuns

/-!
# What is held, and what it was computed from

What it takes for something the cache holds to be warranted by the facts it is credited
with, and how a lookup passes that on: what it serves is good at the clock's reading and
none of its facts was revoked since it was established, and what it offers has run out by
the clock and by nothing else.
-/

namespace Ikigai

variable {π δ : Type}

/-- No thread of a fact was cut between when it was established and a number. -/
def Quiet (history : List Thread) (upTo : Nat) (fact : Fact) : Prop :=
  ∀ thread ∈ fact.threads, thread ∉ (history.take upTo).drop fact.since

/-- The first cuts of a history are not changed by later ones. -/
theorem take_of_longer {history more : List Thread} {count : Nat}
    (within : count ≤ history.length) : (history ++ more).take count = history.take count :=
  List.take_append_of_le_length within

/-- What was quiet up to a point is so in a longer history. -/
theorem Quiet.longer {history : List Thread} {upTo : Nat} {fact : Fact}
    (quiet : Quiet history upTo fact) (within : upTo ≤ history.length) (more : List Thread) :
    Quiet (history ++ more) upTo fact := by
  rw [Quiet, take_of_longer within]
  exact quiet

/-- What is quiet for long is quiet for less. -/
theorem Quiet.shorter {history : List Thread} {upTo sooner : Nat} {fact : Fact}
    (quiet : Quiet history upTo fact) (less : sooner ≤ upTo) : Quiet history sooner fact := by
  intro thread member cut
  apply quiet thread member
  have part : history.take sooner <+: history.take upTo := List.take_prefix_take_left less
  exact (part.drop fact.since).subset cut

/-- What was not cut before a number nor after it was not cut. -/
theorem uncut_of_parts {history : List Thread} {upTo cuts since : Nat} {thread : Thread}
    (before : thread ∉ (history.take upTo).drop since)
    (after : thread ∉ (history.take cuts).drop upTo) : thread ∉ (history.take cuts).drop since := by
  intro cut
  obtain ⟨index, inside, rfl⟩ := List.mem_iff_getElem.mp cut
  simp only [List.length_drop, List.length_take] at inside
  rw [List.getElem_drop, List.getElem_take] at *
  by_cases early : since + index < upTo
  · refine before (List.mem_iff_getElem.mpr ⟨index, ?_, ?_⟩)
    · simp only [List.length_drop, List.length_take]
      omega
    · simp only [List.getElem_drop, List.getElem_take]
  · refine after (List.mem_iff_getElem.mpr ⟨since + index - upTo, ?_, ?_⟩)
    · simp only [List.length_drop, List.length_take]
      omega
    · have same : upTo + (since + index - upTo) = since + index := by omega
      simp only [List.getElem_drop, List.getElem_take, same]

/-- A cut not among those after a number came before it. -/
theorem index_lt_of_uncut {history : List Thread} {cuts since index : Nat} {thread : Thread}
    (uncut : thread ∉ (history.take cuts).drop since) (cut : history[index]? = some thread)
    (made : index < cuts) : index < since := by
  by_contra later
  obtain ⟨inside, here⟩ := List.getElem?_eq_some_iff.mp cut
  refine uncut (List.mem_iff_getElem.mpr ⟨index - since, ?_, ?_⟩)
  · simp only [List.length_drop, List.length_take]
    omega
  · have same : since + (index - since) = index := by omega
    simp only [List.getElem_drop, List.getElem_take, same, here]

/-- Something good until an expiry that hangs from threads owes a fact: it is no later,
unless the fact's time was moved, and even then it is not kept over a fact that lasts no time at
all; and it hangs from all that revokes the fact unless it must not be kept. -/
structure Owed (expiry : Expiry) (threads : ThreadSet) (fact : Fact) : Prop where
  sooner : fact.extended = false → expiry ≤ fact.expiry
  lasts : fact.extended = true → fact.expiry = .always → expiry = .always
  hangs : expiry = .always ∨ ∀ thread ∈ fact.threads, thread ∈ threads

/-- The facts an argument is about: those that came with a sub-request when no collect loses
anything, and those that came through a description when no transreption does. -/
def Counts (care : Care) (fact : Fact) : Prop :=
  (care.collects ∨ fact.inherited = false) ∧ (care.turns ∨ fact.turned = false)

/-- Where nothing is lost every fact counts. -/
theorem counts_of_both (fact : Fact) : Counts .both fact := ⟨.inl trivial, .inl trivial⟩

/-- What must not be kept owes anything. -/
theorem Owed.of_always (threads : ThreadSet) (fact : Fact) : Owed .always threads fact :=
  ⟨fun _ => Expiry.always_le _, fun _ _ => rfl, .inl rfl⟩

/-- What is owed by something that may be kept lasts itself. -/
theorem Owed.lasting {expiry : Expiry} {threads : ThreadSet} {fact : Fact}
    (owed : Owed expiry threads fact) (kept : expiry ≠ .always) : fact.expiry ≠ .always := by
  intro volatile
  cases vouched : fact.extended with
  | true => exact kept (owed.lasts vouched volatile)
  | false => exact kept (Expiry.eq_always_of_le (volatile ▸ owed.sooner vouched))

/-- What is owed by less is owed by more. -/
theorem Owed.within {sooner expiry : Expiry} {fewer threads : ThreadSet} {fact : Fact}
    (owed : Owed expiry fewer fact) (less : sooner ≤ expiry)
    (more : sooner ≠ .always → ∀ thread ∈ fewer, thread ∈ threads) : Owed sooner threads fact := by
  refine ⟨fun standing => less.trans (owed.sooner standing), fun moved volatile =>
    Expiry.eq_always_of_le (owed.lasts moved volatile ▸ less), ?_⟩
  by_cases volatile : sooner = .always
  · exact .inl volatile
  · refine .inr fun thread member => more volatile thread ?_
    rcases owed.hangs with always | threads
    · subst always
      exact absurd (Expiry.eq_always_of_le less) volatile
    · exact threads thread member

/-- An answer that expires by a fact's bound owes it by its expiry. -/
theorem Owed.of_timed {expiry : Expiry} {threads : ThreadSet} {about : About} {bound : Expiry}
    {since : Nat} (sooner : expiry ≤ bound) : Owed expiry threads (Fact.timed about bound since) :=
  ⟨fun _ => sooner, nofun, .inr fun thread member => absurd member ((OrderedSet.mem_empty thread).mp ·)⟩

/-- An answer that hangs from a fact's thread owes it by that. -/
theorem Owed.of_on {expiry : Expiry} {threads : ThreadSet} {about : About} {thread : Thread}
    {since : Nat} (member : expiry ≠ .always → thread ∈ threads) :
    Owed expiry threads (Fact.on about thread since) := by
  refine ⟨fun _ => Expiry.le_never _, nofun, ?_⟩
  by_cases volatile : expiry = .always
  · exact .inl volatile
  · right
    intro other named
    have same : other = thread := by simpa [Fact.on] using named
    exact same ▸ member volatile

/-- What is filed is warranted by its credit. -/
structure Warranted (host : Host π δ) (care : Care) (history : List Thread) (filing : Filing)
    (credit : Credit) : Prop where
  kept : filing.held.expiry ≠ .always
  taken : filing.taken ≤ credit.began
  began : credit.began ≤ history.length
  owes : ∀ fact ∈ credit.facts, Counts care fact →
    Owed filing.held.expiry filing.held.threads fact
  quiet : ∀ fact ∈ credit.facts, Counts care fact → Quiet history filing.taken fact
  read : (host.asked filing.key).operation = false →
    (host.asked filing.key).verb = .source ∨ (host.asked filing.key).verb = .exists →
      ∃ fact ∈ credit.facts, fact.about = .read (host.asked filing.key).canonical ∧
        fact.inherited = false ∧ (host.asked filing.key).canonical ∈ fact.threads
  failure : ∀ failure, filing.held = .failed failure → failure.error.uncacheable = false ∧
    (∃ fact ∈ credit.facts, fact.about = .stated ∧ fact.inherited = false ∧
      fact.extended = false ∧ fact.turned = false) ∧
        ∃ fact ∈ credit.facts, fact.about = .ceiling ∧ fact.inherited = false ∧
          fact.extended = false ∧ fact.turned = false
  body : ∀ answer, filing.held = .answer answer → (host.asked filing.key).operation = false →
    (host.asked filing.key).verb ≠ .«meta» → answer.revalidated = false ∧
      ∃ fact ∈ credit.facts, fact.about = .computed answer.body ∧ fact.inherited = false ∧
        fact.turned = false

namespace Warranted

variable {host : Host π δ} {care : Care} {history : List Thread} {filing : Filing}
  {credit : Credit}

/-- Later cuts take nothing from a warrant. -/
theorem longer (warranted : Warranted host care history filing credit) (more : List Thread) :
    Warranted host care (history ++ more) filing credit :=
  { warranted with
    began := by
      have := warranted.began
      rw [List.length_append]
      omega
    quiet := fun fact member counts => (warranted.quiet fact member counts).longer
      (warranted.taken.trans warranted.began) more }

/-- None of the facts was revoked since it was established, when nothing the filing hangs
from was cut since its snapshot. -/
theorem unrevoked (warranted : Warranted host care history filing credit) {cuts : Nat}
    (uncut : ∀ thread ∈ filing.held.threads, thread ∉ (history.take cuts).drop filing.taken)
    {fact : Fact} (member : fact ∈ credit.facts) (counts : Counts care fact) :
    ∀ thread ∈ fact.threads, thread ∉ (history.take cuts).drop fact.since := by
  intro thread hangs
  apply uncut_of_parts (warranted.quiet fact member counts thread hangs)
  rcases (warranted.owes fact member counts).hangs with volatile | threads
  · exact absurd volatile warranted.kept
  · exact uncut thread (threads thread hangs)

end Warranted

/-- Something out of the cache stands: it was filed under its key on a warrant, and nothing
it hangs from was cut since. -/
structure Stands (host : Host π δ) (care : Care) (history : List Thread) (key : CacheKey)
    (found : FromCache) : Prop where
  cuts : found.cuts ≤ history.length
  filed : ∃ taken, Warranted host care history ⟨key, found.held, taken⟩ found.credit ∧
    ∀ thread ∈ found.held.threads, thread ∉ (history.take found.cuts).drop taken

namespace Stands

variable {host : Host π δ} {care : Care} {history : List Thread} {key : CacheKey}
  {found : FromCache}

/-- Nor do they take anything from what stands in the cache. -/
theorem longer (stands : Stands host care history key found) (more : List Thread) :
    Stands host care (history ++ more) key found where
  cuts := by
    have := stands.cuts
    rw [List.length_append]
    omega
  filed := by
    obtain ⟨taken, warranted, uncut⟩ := stands.filed
    refine ⟨taken, warranted.longer more, ?_⟩
    rw [take_of_longer stands.cuts]
    exact uncut

/-- What stands may be kept. -/
theorem kept (stands : Stands host care history key found) : found.held.expiry ≠ .always := by
  obtain ⟨taken, warranted, _⟩ := stands.filed
  exact warranted.kept

/-- What stands owes each fact it is credited with, by its expiry or by its threads. -/
theorem owes (stands : Stands host care history key found) {fact : Fact}
    (member : fact ∈ found.credit.facts) (counts : Counts care fact) :
    (fact.extended = false → found.held.expiry ≤ fact.expiry) ∧
      ∀ thread ∈ fact.threads, thread ∈ found.held.threads := by
  obtain ⟨taken, warranted, _⟩ := stands.filed
  obtain ⟨sooner, _, volatile | threads⟩ := warranted.owes fact member counts
  · exact absurd volatile warranted.kept
  · exact ⟨sooner, threads⟩

/-- No fact that counts is one that never lasts. -/
theorem lasting (stands : Stands host care history key found) {fact : Fact}
    (member : fact ∈ found.credit.facts) (counts : Counts care fact) : fact.expiry ≠ .always := by
  obtain ⟨taken, warranted, _⟩ := stands.filed
  exact (warranted.owes fact member counts).lasting warranted.kept

/-- No fact was revoked since it was established. -/
theorem unrevoked (stands : Stands host care history key found) {fact : Fact}
    (member : fact ∈ found.credit.facts) (counts : Counts care fact) :
    ∀ thread ∈ fact.threads, thread ∉ (history.take found.cuts).drop fact.since := by
  obtain ⟨taken, warranted, uncut⟩ := stands.filed
  exact warranted.unrevoked uncut member counts

/-- Nothing it hangs from was cut since its computation began. -/
theorem uncut (stands : Stands host care history key found) {thread : Thread}
    (member : thread ∈ found.held.threads) :
    thread ∉ (history.take found.cuts).drop found.credit.began := by
  obtain ⟨taken, warranted, uncut⟩ := stands.filed
  intro cut
  exact uncut thread member ((List.drop_sublist_drop_left _ warranted.taken).subset cut)

end Stands

/-- Good at a reading of the clock. -/
def GoodAt (now : Option Time) (expiry : Expiry) : Prop :=
  ∀ deadline, expiry = .«at» deadline → ∃ read, now = some read ∧ read < deadline

/-- Run out at a reading of the clock. -/
def RunOut (now : Option Time) (expiry : Expiry) : Prop :=
  ∃ deadline, expiry = .«at» deadline ∧ ∀ read, now = some read → deadline ≤ read

/-- A deadline is ahead exactly when there is a clock reading before it. -/
theorem ahead_iff (now : Option Time) (deadline : Time) :
    CacheState.ahead now deadline = true ↔ ∃ read, now = some read ∧ read < deadline := by
  cases now with
  | none => simp [CacheState.ahead]
  | some read => simp [CacheState.ahead]

/-- A live entry is good. -/
theorem live_good (state : CacheState) (slot : Slot) (now : Option Time)
    (live : state.stateOf slot now = .live) : GoodAt now slot.representation.expiry := by
  intro deadline timed
  rw [← ahead_iff]
  by_contra behind
  have stands := live_current state slot now live
  simp only [CacheState.stateOf, timed, if_pos stands, if_neg behind] at live
  cases live

/-- A failure that is live is within its time. -/
theorem live_failure_good (state : CacheState) (slot : FailedSlot) (now : Option Time)
    (live : state.failureState slot now = .live) : GoodAt now (.«at» slot.until_) := by
  rintro _ ⟨⟩
  rw [← ahead_iff]
  by_contra behind
  have stands := live_failure_current state slot now live
  simp only [CacheState.failureState, if_pos stands, if_neg behind] at live
  cases live

/-- An entry that expired stands at its generations and has run out. -/
theorem expired_run_out (state : CacheState) (slot : Slot) (now : Option Time)
    (expired : state.stateOf slot now = .expired) :
    state.edgesCurrent slot.edges = true ∧ RunOut now slot.representation.expiry := by
  unfold CacheState.stateOf at expired
  split at expired
  · rename_i stands
    refine ⟨stands, ?_⟩
    split at expired
    · rename_i deadline timed
      refine ⟨deadline, timed, ?_⟩
      rintro read rfl
      by_contra ahead
      rw [if_pos ((ahead_iff _ _).mpr ⟨read, rfl, not_le.mp ahead⟩)] at expired
      cases expired
    · cases expired
    · cases expired
  · cases expired

/-- What a lookup offers is an entry that expired, and its very answer. -/
theorem lookup_offers (cache : ReprCache π) (key : CacheKey) (now : Option Time) (buffer : Bool)
    (incoming : Option Provenance) (offer : Bool) (stale : Offer)
    (offered : (cache.lookup key now buffer incoming offer).2 = .offer stale) :
    ∃ slot, cache.state.entries.lookup key = some slot ∧
      cache.state.stateOf slot now = .expired ∧ stale.stored = slot.representation ∧
      stale.storedTick = slot.storedTick := by
  unfold ReprCache.lookup ReprCache.serveOrOffer at offered
  cases held : cache.state.entries.lookup key with
  | none =>
    rw [held] at offered
    cases offered
  | some slot =>
    simp only [held] at offered
    refine ⟨slot, rfl, ?_⟩
    cases judged : cache.state.stateOf slot now with
    | live =>
      simp only [judged] at offered
      split at offered <;> cases offered
    | cut =>
      simp only [judged] at offered
      cases offered
    | expired =>
      simp only [judged] at offered
      split at offered
      · split at offered
        · cases offered
        · rename_i face
          cases offered
          unfold ReprCache.offerFace at face
          split at face
          · cases face
          · obtain ⟨stored, shared, carries⟩ := Option.bind_eq_some_iff.mp face
            obtain ⟨validator, _, rfl⟩ := Option.map_eq_some_iff.mp carries
            exact ⟨rfl, slot.representation.share_eq_some stored shared, rfl⟩
      · cases offered

/-- What a lookup hands to the kernel's caller is a live entry's very answer. -/
theorem lookup_hits (cache : ReprCache π) (key : CacheKey) (now : Option Time) (buffer : Bool)
    (incoming : Option Provenance) (offer : Bool) (answer : Answer)
    (found : (cache.lookup key now buffer incoming offer).2 = .hit answer) :
    ∃ slot, cache.state.entries.lookup key = some slot ∧ cache.state.stateOf slot now = .live ∧
      (CacheAnswer.answered (.hit answer)).serves = some (.answer slot.representation) := by
  obtain ⟨slot, there, live, shown⟩ := (ReprCache.serve_or_offer_spec cache key now
    (ReprCache.answerFace buffer incoming) (ReprCache.offerFace offer incoming)).2.2 answer found
  exact ⟨slot, there, live, answer_face_shows buffer incoming slot answer shown⟩

section Cache

variable [CachePolicy π]

/-- The last filing after one more operation is that operation's, or it was the last before
and the operation filed nothing in its place. -/
theorem LastFiled.concat_cases {policy : π} {ops : List CacheOp} {op : CacheOp} {filing : Filing}
    (last : LastFiled policy (ops ++ [op]) filing) :
    (op.filing = some filing ∧ ((ReprCache.after policy ops).perform op).2.took = true) ∨
      (LastFiled policy ops filing ∧
        ¬Files (ReprCache.after policy ops) op filing.key filing.held.isFailure) := by
  obtain ⟨early, filed, late, split, offered, took, none_after⟩ := last
  rcases List.eq_nil_or_concat late with rfl | ⟨rest, final, rfl⟩
  · obtain ⟨rfl, ⟨⟩⟩ := List.append_inj' split rfl
    exact .inl ⟨offered, took⟩
  · rw [List.concat_eq_append] at split none_after
    rw [← List.cons_append, ← List.append_assoc] at split
    obtain ⟨rfl, ⟨⟩⟩ := List.append_inj' split rfl
    refine .inr ⟨⟨early, filed, rest, rfl, offered, took, ?_⟩, none_after rest op [] rfl⟩
    rintro ahead again behind rfl
    exact none_after ahead again (behind ++ [op]) (by simp)

/-- An operation moves the published number of cuts only up. -/
theorem cut_seq_le_perform (cache : ReprCache π) (published : Published cache)
    (op : CacheOp) :
    cache.cutSeq ≤ (cache.perform op).1.cutSeq := by
  cases op with
  | snapshot => exact le_rfl
  | recordCut thread => exact le_rfl
  | publish => exact published
  | cutWith thread => exact Nat.le_succ_of_le published
  | store key target representation taken costMillis incoming =>
    rcases ReprCache.store_outcome_cases cache key target representation taken costMillis incoming
      with ⟨tick, policy, declined, _, _, outcome⟩ |
        ⟨policy, enforced, _, _, _, _, rfl, outcome⟩
    · simp only [ReprCache.perform, outcome, le_refl]
    · simp only [ReprCache.perform, outcome]
      exact (ReprCache.enforce_bound_trims (cache.filed policy key _)).2.ge
  | storeFailure key target error until_ threads taken incoming =>
    rcases ReprCache.store_failure_cases cache key target error until_ threads taken incoming with
      ⟨declined, outcome⟩ | ⟨_, room, _, outcome⟩ <;> simp only [ReprCache.perform, outcome, le_refl]
  | get key now =>
    exact (congrArg ReprCache.cutSeq (ReprCache.serve_or_offer_spec cache key now _ _).2.1).ge
  | getBody key now =>
    exact (congrArg ReprCache.cutSeq (ReprCache.serve_or_offer_spec cache key now _ _).2.1).ge
  | lookup key now buffer incoming offer =>
    exact (congrArg ReprCache.cutSeq (ReprCache.serve_or_offer_spec cache key now _ _).2.1).ge
  | getFailure key now incoming =>
    exact (congrArg ReprCache.cutSeq (ReprCache.get_failure_spec cache key now incoming).2.1).ge
  | discard key offer =>
    exact (congrArg ReprCache.cutSeq (ReprCache.discard_trims cache key offer).2).ge

/-- A later snapshot is no smaller. -/
theorem snapshot_mono (policy : π) (ops : List CacheOp) (op : CacheOp) :
    (ReprCache.after policy ops).snapshot ≤ (ReprCache.after policy (ops ++ [op])).snapshot := by
  rw [ReprCache.after_concat]
  exact cut_seq_le_perform _ (sound_after policy ops).2 op

/-- A snapshot counts cuts that were recorded. -/
theorem snapshot_le_cuts (policy : π) (ops : List CacheOp) :
    (ReprCache.after policy ops).snapshot ≤ (cutsOf ops).length := by
  obtain ⟨sound, published⟩ := sound_after policy ops
  rw [← sound.logged.seq]
  exact published

end Cache

end Ikigai
