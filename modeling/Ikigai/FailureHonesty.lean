import Ikigai.KernelDrive
import Ikigai.KernelKept

/-!
# Failures out of the cache

A failure is held until a time: what its endpoint stated, within the host's ceiling and no
later than anything the failed invocation depended on. Whatever is served, a failure or an
answer computed from one, rests on nothing that was cut since it was established, on
nothing whose time is over, and on no refusal for depth. There are two exceptions: an endpoint
that says its stored body is still valid gives it a time of its own, and a description is taken
for a function of the bindings, whatever the steps of its transreption rest on.
-/

namespace Ikigai

variable {π δ : Type}

/-- What was served at a reading of the clock rests on facts that stand, but for the time of
those excused. What a description was transrepted from does not count. -/
structure FromCache.RestsOn (found : FromCache) (history : List Thread) (now : Option Time)
    (excused : Fact → Prop) : Prop where
  depth : ∀ fact ∈ found.credit.facts, fact.turned = false → fact.about ≠ .depth
  timely : ∀ fact ∈ found.credit.facts, fact.turned = false → ¬excused fact →
    fact.expiry ≠ .always ∧ GoodAt now fact.expiry
  uncut : ∀ fact ∈ found.credit.facts, fact.turned = false → ∀ thread ∈ fact.threads,
    thread ∉ (history.take found.cuts).drop fact.since

/-- A cached failure is one that may be cached, and its credit says how long its endpoint and
the host let it stand. -/
structure FromCache.MayStand (found : FromCache) (failure : CachedFailure) : Prop where
  cacheable : failure.error.uncacheable = false
  stated : ∃ fact ∈ found.credit.facts, fact.about = .stated ∧ fact.inherited = false ∧
    .«at» failure.until_ ≤ fact.expiry
  ceiling : ∃ fact ∈ found.credit.facts, fact.about = .ceiling ∧ fact.inherited = false ∧
    .«at» failure.until_ ≤ fact.expiry

/-- Failures are honest: what is served rests on what stands, a served failure is one that
may stand, and a fresh answer runs out with all it was computed from, but for what is
excused. -/
structure KernelState.Honest (state : KernelState δ) (excused : Fact → Prop) : Prop where
  served : ∀ id frame found, state.frames.lookup id = some frame → frame.served = some found →
    found.RestsOn (cutsOf state.ops) frame.now excused ∧
      ∀ failure, found.held = .failed failure → found.MayStand failure
  answered : ∀ id frame pending carried answer, state.frames.lookup id = some frame →
    frame.stage = .closing pending ⟨.ok answer, carried⟩ → ∀ fact ∈ frame.facts,
      fact.turned = false → (¬excused fact → answer.expiry ≤ fact.expiry) ∧
        (answer.expiry = .always ∨ ∀ thread ∈ fact.threads, thread ∈ answer.threads)

/-- What is good is good for whatever lasts longer. -/
theorem GoodAt.longer {now : Option Time} {sooner expiry : Expiry} (good : GoodAt now sooner)
    (kept : sooner ≠ .always) (less : sooner ≤ expiry) : GoodAt now expiry := by
  rintro deadline rfl
  cases sooner with
  | always => exact absurd rfl kept
  | never => cases (Expiry.le_iff _ _).mp less
  | «at» first =>
    obtain ⟨read, reads, ahead⟩ := good first rfl
    exact ⟨read, reads, ahead.trans_le ((Expiry.at_le_at_iff _ _).mp less)⟩

section Kept

variable [CachePolicy π] {host : Host π δ} {state : KernelState δ}

/-- Where no collect loses anything, what did not come through a description counts. -/
theorem counts_of_plain {fact : Fact} (plain : fact.turned = false) : Counts .collected fact :=
  ⟨.inl trivial, .inr plain⟩

omit [CachePolicy π] in
/-- A held failure's credit holds its failure to what each of its own facts allows. -/
theorem Stands.failure_within {key : CacheKey} {found : FromCache} {failure : CachedFailure}
    {history : List Thread} (stands : Stands host .collected history key found)
    (failed : found.held = .failed failure) {fact : Fact} (member : fact ∈ found.credit.facts)
    (counts : Counts .collected fact) (standing : fact.extended = false) :
    .«at» failure.until_ ≤ fact.expiry := by
  have sooner := (stands.owes member counts).1 standing
  rwa [failed] at sooner

/-- What is served rests on what stands. -/
theorem Intact.rests_on (intact : Intact host .collected state) {id : Nat} {frame : Frame}
    {found : FromCache} (held : state.frames.lookup id = some frame)
    (has : frame.served = some found) :
    found.RestsOn (cutsOf state.ops) frame.now fun fact => fact.extended = true := by
  have served := (intact.frame id frame held).served found has
  obtain ⟨dispatch, _, stands⟩ := served.stands
  refine ⟨?_, ?_, ?_⟩
  · intro fact member plain about
    exact stands.lasting member (counts_of_plain plain) ((served.dated fact member).depth about)
  · intro fact member plain standing
    refine ⟨stands.lasting member (counts_of_plain plain), served.good.longer stands.kept ?_⟩
    exact (stands.owes member (counts_of_plain plain)).1 (by simpa using standing)
  · intro fact member plain
    exact stands.unrevoked member (counts_of_plain plain)

/-- A served failure is one that may stand. -/
theorem Intact.may_stand (intact : Intact host .collected state) {id : Nat} {frame : Frame}
    {found : FromCache} {failure : CachedFailure} (held : state.frames.lookup id = some frame)
    (has : frame.served = some found) (failed : found.held = .failed failure) :
    found.MayStand failure := by
  obtain ⟨dispatch, _, stands⟩ := ((intact.frame id frame held).served found has).stands
  obtain ⟨taken, warranted, _⟩ := stands.filed
  obtain ⟨cacheable, ⟨stated, inStated, aboutStated, ownStated, timed, plain⟩, ceiling,
    inCeiling, aboutCeiling, ownCeiling, timed', plain'⟩ := warranted.failure failure failed
  exact ⟨cacheable,
    ⟨stated, inStated, aboutStated, ownStated,
      stands.failure_within failed inStated (counts_of_plain plain) timed⟩,
    ceiling, inCeiling, aboutCeiling, ownCeiling,
      stands.failure_within failed inCeiling (counts_of_plain plain') timed'⟩

end Kept

/-- Failures are honest in every run that loses nothing of a collected answer, but for the
time of what a revalidation vouched for and for what a description was transrepted from. -/
theorem cached_failures_are_honest [CachePolicy π] (host : Host π δ) (inner : δ)
    (state : KernelState δ) (reached : KernelReached host .collected inner state) :
    state.Honest fun fact => fact.extended = true := by
  have intact := reached_intact reached
  refine ⟨?_, ?_⟩
  · intro id frame found held has
    exact ⟨intact.rests_on held has, fun failure failed => intact.may_stand held has failed⟩
  · intro id frame pending carried answer held stage fact member plain
    have closing := (intact.frame id frame held).stage
    rw [stage] at closing
    have owed := closing.answers answer rfl fact member (counts_of_plain plain)
    exact ⟨fun standing => owed.sooner (by simpa using standing), owed.hangs⟩

/-!
A page is computed from a failure held until 100. At 150 its endpoint says the stored page
is still valid, until 500, and at 200 it is served.
-/

namespace OutlivedFailureExample

def page : Iri := "urn:page".toList

def feed : Iri := "urn:feed".toList

def key (number : UInt8) : CacheKey := ⟨⟨Vector.replicate 32 number⟩, 0, 0⟩

def host : Host ShippedPolicy Unit where
  policy := .simple (.lru ⟨16, 1024⟩)
  ceiling := 60000
  asked := fun asked =>
    if asked = key 1 then ⟨.source, page, false⟩ else ⟨.source, feed, false⟩
  spaceThread := "urn:iki:space:dynamic:demo".toList
  binder := ⟨fun _ => .ok (), fun _ => [], fun _ => [], fun _ => .ok (), fun _ => none⟩

def answer (expiry : Expiry) (revalidated : Bool) : Representation :=
  ⟨⟨"text/plain".toList, []⟩, .bytes [45], expiry, OrderedSet.empty, some ⟨some "1".toList, none⟩,
    revalidated⟩

/-- The page is computed from the failing feed at 10, and asked for again at 20. -/
def computed : List (Move Unit) :=
  [.arrive 0 none page .source true none (some 10), .admitted 0 page (key 1) false false,
    .skipFailures 0, .look 0,
    .arrive 1 (some 0) feed .source true none (some 10), .admitted 1 feed (key 2) false false,
    .skipFailures 1, .look 1, .declare 1 (.failureUntil 100),
    .fail 1 (.unavailable []) (some 10) false,
    .deliver 1 (.collected (.ok [])), .answer 0 (answer .never false) (some 10) false, .close 0,
    .arrive 2 none feed .source true none (some 20), .admitted 2 feed (key 2) false false,
    .askFailure 2,
    .arrive 3 none page .source true none (some 20), .admitted 3 page (key 1) false false,
    .askFailure 3, .look 3]

/-- At 150 the page is revalidated until 500, and at 200 it is served. -/
def outlived : List (Move Unit) := computed ++
  [.arrive 4 none page .source true none (some 150), .admitted 4 page (key 1) false false,
    .askFailure 4, .look 4, .answer 4 (answer (.«at» 500) true) (some 150) false, .close 4,
    .close 4,
    .arrive 5 none page .source true none (some 200), .admitted 5 page (key 1) false false,
    .askFailure 5, .look 5]

/-- The page is served though the failure it was computed from is no longer good. -/
theorem revalidated_page_outlives_failure :
    KernelReached host .collected () (driven host true false () outlived) ∧
      ¬(driven host true false () outlived).Honest fun _ => False := by
  refine ⟨driven_reached_collected host () _, ?_⟩
  intro honest
  have shown : ((driven host true false () outlived).frames.lookup 5).any (fun frame =>
      decide (frame.now = some 200) && frame.served.any fun found =>
        found.credit.facts.any fun fact =>
          decide (fact.about = .heard feed ∧ fact.expiry = .«at» 100 ∧ fact.turned = false)) =
        true := by
    decide
  obtain ⟨frame, held, shows⟩ := (Option.any_eq_true _ _).mp shown
  simp only [Bool.and_eq_true, decide_eq_true_eq] at shows
  obtain ⟨found, has, rests⟩ := (Option.any_eq_true _ _).mp shows.2
  obtain ⟨fact, member, about⟩ := List.any_eq_true.mp rests
  obtain ⟨_, timed, plain⟩ := of_decide_eq_true about
  obtain ⟨read, reads, ahead⟩ :=
    ((honest.served 5 frame found held has).1.timely fact member plain id).2 100 timed
  obtain rfl : 200 = read := Option.some.inj (shows.1.symm.trans reads)
  exact absurd ahead (by decide)

/-- Before the revalidation the failure and the page are served within its time. -/
theorem failure_is_served_honestly :
    (driven host true false () computed).Honest (fun fact => fact.extended = true) ∧
      ((driven host true false () computed).frames.lookup 2).any (fun frame =>
        frame.served.any fun found =>
          decide (found.held = .failed ⟨.unavailable [], 100, OrderedSet.ofList [feed]⟩)) = true ∧
      ((driven host true false () computed).frames.lookup 3).any (fun frame =>
        frame.served.any fun found =>
          decide (found.held.expiry = .«at» 100)) = true :=
  ⟨cached_failures_are_honest host () _ (driven_reached_collected host () _), by decide,
    by decide⟩

end OutlivedFailureExample

end Ikigai
