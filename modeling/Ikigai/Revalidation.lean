import Ikigai.KernelDrive
import Ikigai.OffersKept
import Ikigai.WriteCoherence

/-!
# Revalidation

A body may be stored again and again on its endpoint's word that it is still valid, each
time under a new snapshot and a new expiry. What it was computed from is credited all
along, so a cut of any of it since it was computed, or of anything a later revalidating
invocation recorded since that invocation began, keeps the body from being served. Threads
on the answer that vouches do not: the answer that is served is the stored one, with its own.
-/

namespace Ikigai

variable {π δ : Type}

/-- What is served was not revoked since it was computed: not the body, nor anything that the
invocation which computed it or one that vouched for it went by, since that one's snapshot. It
runs out no later than what it was computed from or revalidated by, what is offered has run out by
time alone, and once the invocation it was offered to is through it is gone. -/
structure KernelState.NothingRevived [CachePolicy π] (host : Host π δ) (care : Care)
    (excused : Fact → Prop) (state : KernelState δ) : Prop where
  computed : ∀ id frame dispatch found answer, state.frames.lookup id = some frame →
    frame.invoked dispatch → frame.served = some found → found.held = .answer answer →
      ∃ fact ∈ found.credit.facts, fact.about = .computed answer.body ∧ fact.inherited = false ∧
        ∀ thread ∈ fact.threads, thread ∉ ((cutsOf state.ops).take found.cuts).drop fact.since
  uncut : ∀ id frame found, state.frames.lookup id = some frame → frame.served = some found →
    ∀ thread ∈ found.held.threads,
      thread ∉ ((cutsOf state.ops).take found.cuts).drop found.credit.began
  unrevoked : ∀ id frame found, state.frames.lookup id = some frame → frame.served = some found →
    ∀ fact ∈ found.credit.facts, Counts care fact → ∀ thread ∈ fact.threads,
      thread ∉ ((cutsOf state.ops).take found.cuts).drop fact.since
  sooner : ∀ id frame found, state.frames.lookup id = some frame → frame.served = some found →
    ∀ fact ∈ found.credit.facts, Counts care fact → ¬excused fact →
      found.held.expiry ≤ fact.expiry
  expired : ∀ id frame offered, state.frames.lookup id = some frame →
    frame.offered = some offered → RunOut frame.now offered.held.expiry ∧
      ∀ thread ∈ offered.held.threads,
        thread ∉ ((cutsOf state.ops).take offered.cuts).drop offered.credit.began
  forgotten : ∀ id frame stale dispatch, state.frames.lookup id = some frame →
    frame.stale = some stale → frame.invoked dispatch → frame.Through →
      (ReprCache.after host.policy state.ops).state.Forgot dispatch.key stale.storedTick

section Runs

variable [CachePolicy π]

/-- A frame that is through has discarded what it was offered. -/
theorem OfferKept.forgotten {cache : CacheState} {frame : Frame} {stale : Offer}
    (kept : OfferKept cache frame stale) {dispatch : Dispatch} (invoked : frame.invoked dispatch)
    (through : frame.Through) : cache.Forgot dispatch.key stale.storedTick := by
  have stage := kept.stage
  rcases through with delivered | ⟨issued, ended⟩
  · rw [delivered] at stage
    exact stage dispatch invoked
  · rw [ended] at stage
    exact (stage dispatch invoked).resolve_right List.not_mem_nil

/-- Every run revives nothing that was cut, and no body outlives what it was computed from
but for the time of what a revalidation vouched for. -/
theorem nothing_is_revived (host : Host π δ) (care : Care) (inner : δ) (state : KernelState δ)
    (reached : KernelReached host care inner state) :
    state.NothingRevived host care fun fact => fact.extended = true := by
  have intact := reached_intact reached
  refine ⟨?_, ?_, ?_, ?_, ?_, ?_⟩
  · intro id frame dispatch found answer held invoked has holds
    have kept := intact.frame id frame held
    obtain ⟨other, same, stands⟩ := (kept.served found has).stands
    obtain rfl : dispatch = other := Option.some.inj (invoked.1.symm.trans same)
    obtain ⟨taken, warranted, _⟩ := stands.filed
    have asked := kept.asked dispatch invoked.1
    obtain ⟨_, fact, member, about, own, plain⟩ := warranted.body answer holds
      (by rw [asked]; exact invoked.2.2) (by rw [asked]; exact invoked.2.1)
    exact ⟨fact, member, about, own, stands.unrevoked member ⟨.inr own, .inr plain⟩⟩
  · intro id frame found held has thread hangs
    obtain ⟨_, _, stands⟩ := ((intact.frame id frame held).served found has).stands
    exact stands.uncut hangs
  · intro id frame found held has fact member counts
    obtain ⟨_, _, stands⟩ := ((intact.frame id frame held).served found has).stands
    exact stands.unrevoked member counts
  · intro id frame found held has fact member counts standing
    obtain ⟨_, _, stands⟩ := ((intact.frame id frame held).served found has).stands
    exact (stands.owes member counts).1 (by simpa using standing)
  · intro id frame offered held has
    have found := (intact.frame id frame held).offered offered has
    obtain ⟨_, _, stands⟩ := found.stands
    exact ⟨found.good, fun thread => stands.uncut⟩
  · intro id frame stale dispatch held offered invoked through
    exact (reached_offers reached id frame stale held offered).forgotten invoked through

end Runs

/-!
A page is computed from a feed that is good until 100. At 150 its endpoint, going by a name
that was cut since, says the stored page is still valid until 500, in an answer that hangs
from a notice; another request that was offered the page at 150 too fails after that. Then
the notice is cut, and at 200 the page is served.
-/

namespace RevalidatedExample

def page : Iri := "urn:page".toList

def feed : Iri := "urn:feed".toList

def stamp : Thread := "urn:stamp".toList

def notice : Thread := "urn:notice".toList

def key (number : UInt8) : CacheKey := ⟨⟨Vector.replicate 32 number⟩, 0, 0⟩

def host : Host ShippedPolicy Unit where
  policy := .simple (.lru ⟨16, 1024⟩)
  ceiling := 60000
  asked := fun asked =>
    if asked = key 1 then ⟨.source, page, false⟩ else ⟨.source, feed, false⟩
  spaceThread := "urn:iki:space:dynamic:demo".toList
  binder := ⟨fun _ => .ok (), fun _ => [], fun _ => [], fun _ => .ok (), fun _ => none⟩

def answer (expiry : Expiry) (revalidated : Bool) : Representation :=
  ⟨⟨"text/plain".toList, []⟩, .bytes [45], expiry, OrderedSet.empty, some ⟨some "1".toList, none⟩,
    revalidated⟩

/-- "Still valid until 500", hanging from the notice. -/
def stillValid : Representation :=
  { answer (.«at» 500) true with threads := OrderedSet.ofList [notice] }

/-- The page is computed from the feed at 10, then the stamp is cut. -/
def computed : List (Move Unit) :=
  [.arrive 0 none page .source true none (some 10), .admitted 0 page (key 1) false false,
    .skipFailures 0, .look 0,
    .arrive 1 (some 0) feed .source true none (some 10), .admitted 1 feed (key 2) false false,
    .skipFailures 1, .look 1, .answer 1 (answer (.«at» 100) false) (some 10) false, .close 1,
    .deliver 1 (.collected (.ok [45])),
    .answer 0 (answer .never false) (some 10) false, .close 0,
    .hosted (.cutWith stamp)]

/-- Two requests are offered the page at 150, the first finds it still valid and the other
fails; the notice is cut, and at 200 the page is served. -/
def revalidated : List (Move Unit) := computed ++
  [.arrive 2 none page .source true none (some 150), .admitted 2 page (key 1) false false,
    .skipFailures 2, .look 2,
    .arrive 3 none page .source true none (some 150), .admitted 3 page (key 1) false false,
    .skipFailures 3, .look 3,
    .declare 2 (.thread stamp), .answer 2 stillValid (some 150) false, .close 2,
    .close 2,
    .fail 3 (.unavailable []) (some 150) false, .close 3,
    .hosted (.cutWith notice),
    .arrive 4 none page .source true none (some 200), .admitted 4 page (key 1) false false,
    .skipFailures 4, .look 4]

/-- The page runs out later than the feed it was computed from, hangs from what was cut after
it was computed, and is still held when a revalidation of it has failed; and it is served
though the notice, which the answer that vouched for it hung from, was cut since. -/
theorem revalidated_page_outlives_part :
    (KernelReached host .collected () (driven host true false () revalidated) ∧
      ¬(driven host true false () revalidated).NothingRevived host .collected fun _ => False) ∧
      ((driven host true false () revalidated).frames.lookup 4).any (fun frame =>
        frame.served.any fun found => found.credit.facts.any fun fact =>
          decide (fact.about = .computed (.bytes [45]) ∧ fact.inherited = false ∧
            stamp ∈ found.held.threads.items ∧ stamp ∈
              ((cutsOf (driven host true false () revalidated).ops).take found.cuts).drop fact.since)) =
        true ∧
      ((driven host true false () revalidated).frames.lookup 3).any (fun frame =>
        frame.stale.isSome && frame.ended) = true ∧
      ((ReprCache.after host.policy (driven host true false () revalidated).ops).state.entries.lookup
        (key 1)).any (fun slot => decide (slot.representation.body = .bytes [45])) = true ∧
      notice ∈ stillValid.threads ∧
      ((driven host true false () revalidated).frames.lookup 4).any (fun frame =>
        frame.served.any fun found => decide (notice ∉ found.held.threads.items ∧ notice ∈
          ((cutsOf (driven host true false () revalidated).ops).take found.cuts).drop
            found.credit.began)) = true := by
  refine ⟨⟨driven_reached_collected host () _, ?_⟩, by decide, by decide, by decide, by decide,
    by decide⟩
  intro revived
  have shown : ((driven host true false () revalidated).frames.lookup 4).any (fun frame =>
      frame.served.any fun found => decide (found.held.expiry = .«at» 500) &&
        found.credit.facts.any fun fact =>
          decide (fact.about = .heard feed ∧ fact.expiry = .«at» 100 ∧ fact.turned = false)) =
        true := by
    decide
  obtain ⟨frame, held, shows⟩ := (Option.any_eq_true _ _).mp shown
  obtain ⟨found, has, rests⟩ := (Option.any_eq_true _ _).mp shows
  simp only [Bool.and_eq_true, decide_eq_true_eq] at rests
  obtain ⟨fact, member, about⟩ := List.any_eq_true.mp rests.2
  obtain ⟨_, timed, plain⟩ := of_decide_eq_true about
  have sooner := revived.sooner 4 frame found held has fact member ⟨.inl trivial, .inr plain⟩ id
  rw [rests.1, timed, Expiry.at_le_at_iff] at sooner
  exact absurd sooner (by decide)

/-- The expired page was offered and that entry is gone, and the revalidated one is served. -/
theorem revalidated_page_is_not_revived :
    (driven host true false () revalidated).NothingRevived host .collected
        (fun fact => fact.extended = true) ∧
      ((driven host true false () revalidated).frames.lookup 2).any (fun frame =>
        frame.stale.isSome && frame.offered.any fun offered =>
          decide (offered.held.expiry = .«at» 100)) = true ∧
      ((driven host true false () revalidated).frames.lookup 4).any (fun frame =>
        frame.served.any fun found => decide (found.held.expiry = .«at» 500)) = true :=
  ⟨nothing_is_revived host .collected () _ (driven_reached_collected host () _), by decide,
    by decide⟩

end RevalidatedExample

end Ikigai
