import Ikigai.KernelDrive
import Ikigai.KernelKept

/-!
# Reads after writes

A write is through once its issue has nothing left to do; by then its target's cut has been
recorded. Whatever is looked up after that cut and rests on a read of the target, at any
depth and under any name, was computed by a request that began after it, in every run that
loses nothing: no collect of an answer that was collected, no transreption of a description
what its steps hung from.
-/

namespace Ikigai

variable {π δ : Type}

/-- A request with nothing left to do but to hand its result over. -/
def Frame.Through (frame : Frame) : Prop :=
  frame.stage = .delivered ∨ ∃ issued, frame.stage = .closing [] issued

/-- A frame that has ended with nothing left to make. -/
def Frame.ended (frame : Frame) : Bool :=
  match frame.stage with
  | .closing [] _ => true
  | _ => false

theorem Frame.through_of_ended {frame : Frame} (closed : frame.ended = true) : frame.Through := by
  unfold Frame.ended at closed
  split at closed
  · rename_i issued stage
    exact .inr ⟨issued, stage⟩
  · cases closed

/-- A request that reads what a name holds. -/
def Frame.Reads (frame : Frame) (canonical : Iri) : Prop :=
  (frame.verb = .source ∨ frame.verb = .exists) ∧ ∃ dispatch, frame.dispatch = some dispatch ∧
    dispatch.operation = false ∧ dispatch.canonical = canonical

/-- Every write that is through has cut its target, and what was served after that cut for
the target, or for anything computed from a read of it, began after the cut. -/
def KernelState.Coherent (state : KernelState δ) : Prop :=
  ∀ id writer canonical, state.frames.lookup id = some writer → writer.Writes canonical →
    writer.Through → ∃ index, writer.wrote = some index ∧
      ∀ other reader served, state.frames.lookup other = some reader →
        reader.served = some served → index < served.cuts →
        (reader.Reads canonical ∨ ∃ fact ∈ served.credit.facts, fact.about = .read canonical) →
          index < served.credit.began

section Kept

variable [CachePolicy π] {host : Host π δ} {state : KernelState δ}

/-- A write that is through has made its cut. -/
theorem Intact.wrote {care : Care} (intact : Intact host care state) {id : Nat} {writer : Frame}
    {canonical : Iri} (held : state.frames.lookup id = some writer)
    (writes : writer.Writes canonical) (through : writer.Through) :
    ∃ index, writer.wrote = some index ∧ (cutsOf state.ops)[index]? = some canonical := by
  have kept := intact.frame id writer held
  have cut : writer.wrote.isSome = true := by
    have stage := kept.stage
    rcases through with delivered | ⟨issued, closed⟩
    · rw [delivered] at stage
      exact stage canonical writes
    · rw [closed] at stage
      rcases stage.writes canonical writes with wrote | ⟨op, member, _⟩
      · exact wrote
      · cases member
  obtain ⟨index, wrote⟩ := Option.isSome_iff_exists.mp cut
  obtain ⟨other, ⟨_, dispatch, dispatched, _, rfl⟩, recorded⟩ := kept.wrote index wrote
  obtain ⟨_, same, dispatched', _, rfl⟩ := writes
  obtain rfl : dispatch = same := Option.some.inj (dispatched.symm.trans dispatched')
  exact ⟨index, wrote, recorded⟩

/-- What is served for a name that is read hangs from it. -/
theorem Intact.served_hangs (intact : Intact host .both state) {id : Nat} {reader : Frame}
    {served : FromCache} {canonical : Iri} (held : state.frames.lookup id = some reader)
    (has : reader.served = some served)
    (reads : reader.Reads canonical ∨ ∃ fact ∈ served.credit.facts, fact.about = .read canonical) :
    canonical ∈ served.held.threads := by
  have kept := intact.frame id reader held
  obtain ⟨dispatch, dispatched, stands⟩ := (kept.served served has).stands
  rcases reads with ⟨verb, other, same, endpoint, rfl⟩ | ⟨fact, member, about⟩
  · obtain rfl : dispatch = other := Option.some.inj (dispatched.symm.trans same)
    obtain ⟨taken, warranted, _⟩ := stands.filed
    have asked := kept.asked dispatch dispatched
    have read := warranted.read
    rw [asked] at read
    obtain ⟨fact, member, _, _, hangs⟩ := read endpoint verb
    exact (stands.owes member (counts_of_both fact)).2 _ hangs
  · have dated := (kept.served served has).dated fact member
    exact (stands.owes member (counts_of_both fact)).2 _ (dated.reads canonical about)

end Kept

/-- Reads after writes, in every run that loses nothing: whatever is served after a write of a
name and rests on a read of it was computed by a request that began after the write's cut. -/
theorem write_read_coherence [CachePolicy π] (host : Host π δ) (inner : δ)
    (state : KernelState δ) (reached : KernelReached host .both inner state) : state.Coherent := by
  have intact := reached_intact reached
  intro id writer canonical held writes through
  obtain ⟨index, wrote, cut⟩ := intact.wrote held writes through
  refine ⟨index, wrote, ?_⟩
  intro other reader served there has later reads
  obtain ⟨dispatch, _, stands⟩ := ((intact.frame other reader there).served served has).stands
  have hangs := intact.served_hangs there has reads
  exact index_lt_of_uncut (stands.uncut hangs) cut later

/-!
A page reads a feed under another name than its own and is handed a stream, which ends as
not found while it is collected; the page answers anyway. The feed is then written, and the
page asked for again.
-/

namespace LostReadExample

def page : Iri := "urn:page".toList

def feed : Iri := "urn:feed".toList

def file : Iri := "urn:file:feed".toList

def key (number : UInt8) : CacheKey := ⟨⟨Vector.replicate 32 number⟩, 0, 0⟩

def host : Host ShippedPolicy Unit where
  policy := .simple (.lru ⟨16, 1024⟩)
  ceiling := 60000
  asked := fun asked =>
    if asked = key 1 then ⟨.source, page, false⟩
    else if asked = key 2 then ⟨.source, file, false⟩
    else ⟨.sink, file, false⟩
  spaceThread := "urn:iki:space:dynamic:demo".toList
  binder := ⟨fun _ => .ok (), fun _ => [], fun _ => [], fun _ => .ok (), fun _ => none⟩

def text (body : Body) : Representation :=
  ⟨⟨"text/plain".toList, []⟩, body, .never, OrderedSet.empty, none, false⟩

/-- The page is computed, the feed written, and the page asked for again. -/
def moves (reading : Reading) : List (Move Unit) :=
  [.arrive 0 none page .source true none none, .admitted 0 page (key 1) false false,
    .skipFailures 0, .look 0,
    .arrive 1 (some 0) feed .source true none none, .admitted 1 file (key 2) false false,
    .skipFailures 1, .look 1, .answer 1 (text (.once 0)) none false,
    .deliver 1 reading, .answer 0 (text (.bytes [45])) none false, .close 0,
    .arrive 2 none file .sink true none none, .admitted 2 file (key 3) false false, .enter 2,
    .answer 2 (text (.bytes [])) none false, .close 2, .close 2,
    .arrive 3 none page .source true none none, .admitted 3 page (key 1) false false,
    .skipFailures 3, .look 3]

def lost : KernelState Unit := driven host false false () (moves (.collected (.error (.notFound []))))

/-- The page is served though it was computed before the write and read what was written. -/
theorem lost_read_outlives_write : KernelReached host .nothing () lost ∧ ¬lost.Coherent := by
  refine ⟨driven_reached_any host () _, ?_⟩
  intro coherent
  have wrote : (lost.frames.lookup 2).any (fun writer =>
      decide (writer.verb = .sink ∧ writer.wrote = some 0 ∧
        writer.dispatch = some ⟨file, key 3, false, none⟩) && writer.ended) = true := by
    decide
  have read : (lost.frames.lookup 3).any (fun reader => reader.served.any fun served =>
      decide (served.cuts = 1 ∧ served.credit.began = 0) &&
        served.credit.facts.any fun fact => decide (fact.about = .read file)) = true := by
    decide
  obtain ⟨writer, held, shown⟩ := (Option.any_eq_true _ _).mp wrote
  obtain ⟨reader, there, found⟩ := (Option.any_eq_true _ _).mp read
  obtain ⟨served, has, rests⟩ := (Option.any_eq_true _ _).mp found
  simp only [Bool.and_eq_true, decide_eq_true_eq] at shown rests
  obtain ⟨⟨verb, index, dispatched⟩, closed⟩ := shown
  obtain ⟨⟨cuts, began⟩, rested⟩ := rests
  obtain ⟨fact, member, about⟩ := List.any_eq_true.mp rested
  obtain ⟨other, same, later⟩ := coherent 2 writer file held
    ⟨by rw [verb]; rfl, _, dispatched, rfl, rfl⟩ (Frame.through_of_ended closed)
  obtain rfl : 0 = other := Option.some.inj (index.symm.trans same)
  have after := later 3 reader served there has (by omega)
    (.inr ⟨fact, member, of_decide_eq_true about⟩)
  omega

def kept : KernelState Unit := driven host true true () (moves (.collected (.ok [104])))

/-- Read to its end the feed is in the page's record, and the page is computed again. -/
theorem kept_read_is_coherent : kept.Coherent ∧
    (kept.frames.lookup 3).any (fun reader => reader.served.isNone) = true :=
  ⟨write_read_coherence host () kept (driven_reached_both host () _), by decide⟩

end LostReadExample

end Ikigai
