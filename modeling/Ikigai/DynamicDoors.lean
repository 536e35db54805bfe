import Ikigai.KernelDrive
import Ikigai.KernelKept

/-!
# Doors that are gone

What is served after a bind returned was not computed behind a door of an arrangement the
bind replaced: whatever entered or described such a door hangs from a thread the bind cut
after it had swapped, and so does a description that was transrepted behind one. A name that
came to nothing was answered by no door, and hangs from that name alone.
-/

namespace Ikigai

variable {π δ : Type}

/-- The arrangement a computation resolved a name through, to a door or to nothing. -/
def About.resolvedIn : About → Option Nat
  | .door version | .behind version | .missed version => some version
  | _ => none

/-- A bind that made its cuts is behind nothing served since that was computed in an older
arrangement. The steps of a transreption do not count one by one, since the description counts
the doors they went through as its own. A refused candidate changes nothing but the refusal on
record, and the digest in force is that of the declaration whose doors resolve. -/
structure KernelState.KeepsUp (host : Host π δ) (inner : δ) (through : About → Option Nat)
    (state : KernelState δ) : Prop where
  current : ∀ id install, state.installs.lookup id = some install → install.pending = [] →
    ∀ other reader served, state.frames.lookup other = some reader →
      reader.served = some served → (∀ cut ∈ install.made, cut.2 < served.cuts) →
        ∀ fact ∈ served.credit.facts, fact.turned = false →
          ∀ version, through fact.about = some version → install.version ≤ version
  refused : ∀ candidate objection now refusal,
    host.binder.verdict objection candidate = .error refusal →
      { state with space := state.space.offered host.binder objection now candidate } =
        { state with space :=
          { state.space with refusal := some (refusal, host.binder.digestOf candidate) } }
  accountable : state.space.Accountable host.binder inner

/-- A fact about a door that stood when it was served is of no arrangement replaced before. -/
theorem InstallKept.current {host : Host π δ} {care : Care} {state : KernelState δ}
    {install : Install} (kept : InstallKept host state install) {id : Nat}
    (held : state.installs.lookup id = some install) (returned : install.pending = []) {upTo : Nat}
    (made : ∀ cut ∈ install.made, cut.2 < upTo) {fact : Fact}
    (dated : Dated host care state fact) (full : care.collects)
    (unrevoked : ∀ thread ∈ fact.threads, thread ∉ ((cutsOf state.ops).take upTo).drop fact.since)
    {version : Nat} (door : fact.about.doorOf = some version) : install.version ≤ version := by
  by_contra older
  obtain ⟨index, cut⟩ : ∃ index, (bindingsThread, index) ∈ install.made := by
    rcases kept.cuts bindingsThread (.inr rfl) with made | ⟨op, member, _⟩
    · exact made
    · rw [returned] at member
      cases member
  obtain ⟨thread, hangs, earlier, before, since, here⟩ :=
    kept.revokes held dated full door (not_le.mp older) cut
  have early : earlier < upTo := before.trans_lt (made _ cut)
  exact absurd (index_lt_of_uncut (unrevoked thread hangs) here early) (not_lt.mpr since)

section Runs

variable [CachePolicy π]

/-- Only a candidate changes the space. -/
theorem step_accountable {host : Host π δ} {care : Care} {inner : δ}
    {before after : KernelState δ} (accountable : before.space.Accountable host.binder inner)
    (step : KernelStep host care before after) :
    after.space.Accountable host.binder inner := by
  cases step with
  | refuseBind candidate objection now refusal refused =>
    exact DynamicState.offered_accountable _ _ objection now _ candidate accountable
  | bind id candidate objection now listened declared fresh accepted =>
    exact DynamicState.offered_accountable _ _ objection now _ candidate accountable
  | _ => exact accountable

theorem reached_accountable {host : Host π δ} {care : Care} {inner : δ} {state : KernelState δ}
    (reached : KernelReached host care inner state) :
    state.space.Accountable host.binder inner := by
  induction reached with
  | refl => exact DynamicState.empty_accountable host.binder inner
  | tail _ step accountable => exact step_accountable accountable step

end Runs

/-!
A page asks for a greeting while the space is empty and makes do without it. A declaration
with a door for the greeting binds, and the page is asked for again.
-/

namespace MissedExample

def page : Iri := "urn:page".toList

def greeting : Iri := "urn:greeting".toList

def key (number : UInt8) : CacheKey := ⟨⟨Vector.replicate 32 number⟩, 0, 0⟩

/-- A declaration is the list of the names it binds. -/
def host : Host ShippedPolicy (List Iri) where
  policy := .simple (.lru ⟨16, 1024⟩)
  ceiling := 60000
  asked := fun asked =>
    if asked = key 1 then ⟨.source, page, false⟩
    else if asked = key 3 then ⟨.«meta», page, false⟩
    else ⟨.source, greeting, false⟩
  spaceThread := "urn:iki:space:dynamic:demo".toList
  binder := ⟨fun name => .ok [name], fun names => names.flatten, fun _ => [], fun _ => .ok (),
    fun _ => none⟩

def text (body : List UInt8) : Representation :=
  ⟨⟨"text/plain".toList, []⟩, .bytes body, .never, OrderedSet.empty, none, false⟩

/-- The declaration binds, and makes its two cuts. -/
def binding (id : Nat) : List (Move (List Iri)) :=
  [.offered id (.topology [greeting]) none none (false, false), .cutBound id, .cutBound id,
    .cutBound id, .cutBound id]

/-- The page is computed without the greeting, and served after the greeting has a door. -/
def missed : List (Move (List Iri)) :=
  [.arrive 0 none page .source true none none, .admitted 0 page (key 1) false false,
    .skipFailures 0, .look 0,
    .arrive 1 (some 0) greeting .source true none none, .refuse 1 (.unresolved greeting),
    .deliver 1 (.collected (.ok [])), .answer 0 (text [45]) none false, .close 0] ++
  binding 0 ++
  [.arrive 2 none page .source true none none, .admitted 2 page (key 1) false false,
    .skipFailures 2, .look 2]

/-- The page is computed behind a door of the first arrangement and asked for again; then it is
described, in a type that its renderer does not emit, by a step that goes through the door. -/
def bound : List (Move (List Iri)) := binding 0 ++
  [.arrive 0 none page .source true none none, .admitted 0 page (key 1) false true,
    .skipFailures 0, .look 0, .enterDoor 0, .answer 0 (text [45]) none false, .close 0,
    .arrive 1 none page .source true none none, .admitted 1 page (key 1) false true,
    .skipFailures 1, .look 1,
    .arrive 2 none page .«meta» true none none, .admitted 2 page (key 3) false false,
    .skipFailures 2, .look 2, .transrept 2,
    .issueTurn 3 2 greeting none, .admitted 3 greeting (key 2) false true,
    .skipFailures 3, .look 3, .enterDoor 3, .answer 3 (text [60]) none false, .close 3,
    .turn 3 (.ok [60]), .describe 2 .never { text [60] with
      threads := OrderedSet.ofList ["urn:iki:space:dynamic:demo".toList, greeting] } none,
    .close 2,
    .arrive 4 none page .«meta» true none none, .admitted 4 page (key 3) false false,
    .skipFailures 4, .look 4]

/-- Another candidate binds, and the description is asked for again. -/
def rebound : List (Move (List Iri)) := bound ++ binding 1 ++
  [.arrive 5 none page .«meta» true none none, .admitted 5 page (key 3) false false,
    .skipFailures 5, .look 5]

end MissedExample

end Ikigai
