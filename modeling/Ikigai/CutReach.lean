import Ikigai.NoStaleServe

/-!
# What a cut reaches

Hosts act on two reports: the entries a cut of a thread would make stale, read before it, and
the dependents a cut hands its observer. The first compares an entry's validity before with
its validity after. The second subtracts one from a counter that a sweep may have started
again, and is exact since a pinned thread's counter moves by its cuts and by nothing else.
-/

namespace Ikigai

open CacheState

variable {π : Type}

namespace EntryState

def isLive : EntryState → Bool
  | .live => true
  | .cut | .expired => false

end EntryState

/-- One entry as the readouts print it. -/
structure CacheRow where
  target : Text
  mediaType : Text
  bytes : Nat
  threads : Nat
  scope : UInt64
  state : EntryState
deriving DecidableEq

/-- An entry with its key and the names of the threads it hangs from. -/
structure EntryEdges where
  key : CacheKey
  row : CacheRow
  threads : List Text
deriving DecidableEq

namespace CacheState

/-- Whether an entry would be served right now. -/
def isValid (state : CacheState) (entry : Slot) (now : Option Time) : Bool :=
  (state.stateOf entry now).isLive

def rowOf (state : CacheState) (now : Option Time) (key : CacheKey) (entry : Slot) : CacheRow where
  target := entry.target
  mediaType := entry.representation.reprType.mediaType
  bytes := entry.bytes
  threads := entry.edges.length
  scope := key.scope
  state := state.stateOf entry now

def entryEdges (state : CacheState) (now : Option Time) (entry : (_ : CacheKey) × Slot) :
    EntryEdges where
  key := entry.1
  row := state.rowOf now entry.1 entry.2
  threads := entry.2.edges.map Prod.fst

/-- What a cut reports of one entry, if it hangs from the thread. -/
def dependentOf (state : CacheState) (thread : Thread) (entry : (_ : CacheKey) × Slot) :
    Option Dependent :=
  (entry.2.edges.find? fun edge => edge.1 == thread).map fun edge =>
    ⟨entry.2.target, entry.1.capability, edge.2 == state.generationOf thread - 1⟩

end CacheState

namespace ReprCache

/-- Every resident entry, marked as of a clock reading. -/
def edgesAt (cache : ReprCache π) (now : Option Time) : List EntryEdges :=
  cache.state.entries.entries.map fun entry => cache.state.entryEdges now entry

/-- What a cut of a thread would make stale: every entry that hangs from it and would be
served now. -/
def dependentsAt (cache : ReprCache π) (thread : Thread) (now : Option Time) : List EntryEdges :=
  (cache.edgesAt now).filter fun entry =>
    entry.row.state.isLive && entry.threads.any fun name => name == thread

end ReprCache

namespace Slot

/-- Whether an entry has an edge on a thread. -/
def hangsFrom (slot : Slot) (thread : Thread) : Bool := slot.edges.any fun edge => edge.1 == thread

theorem hangs_from_iff (slot : Slot) (thread : Thread) :
    slot.hangsFrom thread = true ↔ ∃ edge ∈ slot.edges, edge.1 = thread := by
  simp only [hangsFrom, List.any_eq_true, beq_iff_eq]

end Slot

namespace CacheState

theorem current_iff (state : CacheState) (edges : List (Thread × Nat)) :
    state.edgesCurrent edges = true ↔ ∀ edge ∈ edges, state.generationOf edge.1 = edge.2 := by
  simp only [edgesCurrent, List.all_eq_true, beq_iff_eq]

/-- A valid entry's edges are all current. -/
theorem valid_current (state : CacheState) (slot : Slot) (now : Option Time)
    (valid : state.isValid slot now = true) : state.edgesCurrent slot.edges = true := by
  by_contra stale
  rw [isValid, stateOf, if_neg stale] at valid
  cases valid

/-- Two states that find an entry's edges current alike find it valid alike. -/
theorem is_valid_congr {before after : CacheState} (slot : Slot) (now : Option Time)
    (same : after.edgesCurrent slot.edges = before.edgesCurrent slot.edges) :
    after.isValid slot now = before.isValid slot now := by
  rw [isValid, isValid, stateOf, stateOf, same]

/-- A cut leaves an entry's edges current when it has none on the cut thread. -/
theorem current_recordCut (state : CacheState) (thread : Thread) (slot : Slot)
    (current : state.edgesCurrent slot.edges = true) :
    (state.recordCut thread).edgesCurrent slot.edges = !slot.hangsFrom thread := by
  rw [current_iff] at current
  rw [Bool.eq_iff_iff, current_iff, Bool.not_eq_true', ← Bool.not_eq_true, Slot.hangs_from_iff]
  constructor
  · rintro after ⟨edge, inside, rfl⟩
    have moved := after edge inside
    have pinned := current edge inside
    rw [Guarded.generation_recordCut, if_pos rfl] at moved
    omega
  · intro elsewhere edge inside
    have other : edge.1 ≠ thread := fun same => elsewhere ⟨edge, inside, same⟩
    rw [Guarded.generation_recordCut, if_neg other]
    exact current edge inside

/-- A cut makes stale exactly the valid entries that hang from its thread. -/
theorem stales_iff (state : CacheState) (thread : Thread) (slot : Slot) (now : Option Time) :
    (state.isValid slot now && !(state.recordCut thread).isValid slot now) =
      (state.isValid slot now && slot.hangsFrom thread) := by
  cases valid : state.isValid slot now with
  | false => rfl
  | true =>
    have current := valid_current state slot now valid
    have after := current_recordCut state thread slot current
    cases hangs : slot.hangsFrom thread with
    | false =>
      rw [hangs] at after
      rw [is_valid_congr slot now (after.trans current.symm), valid]
      rfl
    | true =>
      rw [hangs] at after
      have stale : (state.recordCut thread).isValid slot now = false := by
        rw [← Bool.not_eq_true]
        intro valid
        rw [valid_current _ slot now valid] at after
        cases after
      rw [stale]
      rfl

/-- An entry is reported exactly when it hangs from the thread. -/
theorem dependent_isSome (state : CacheState) (thread : Thread)
    (entry : (_ : CacheKey) × Slot) :
    (state.dependentOf thread entry).isSome = entry.2.hangsFrom thread := by
  rw [dependentOf, Option.isSome_map, List.isSome_find?, Slot.hangsFrom]

/-- What an entry that hangs from a thread is reported as, right after a cut of it: live when
its first edge there stood at the generation the cut moved. -/
theorem dependent_after_cut (state : CacheState) (thread : Thread)
    (entry : (_ : CacheKey) × Slot) (hangs : entry.2.hangsFrom thread = true) :
    ∃ edge ∈ entry.2.edges, edge.1 = thread ∧
      (state.recordCut thread).dependentOf thread entry =
        some ⟨entry.2.target, entry.1.capability, edge.2 == state.generationOf thread⟩ := by
  rw [Slot.hangsFrom, ← List.isSome_find?, Option.isSome_iff_exists] at hangs
  obtain ⟨edge, found⟩ := hangs
  refine ⟨edge, List.mem_of_find?_eq_some found, ?_, ?_⟩
  · simpa using List.find?_some found
  · rw [dependentOf, found, Option.map_some, Guarded.generation_recordCut, if_pos rfl,
      Nat.add_sub_cancel]

/-- An entry that a cut makes stale is reported live. -/
theorem stale_reported (state : CacheState) (thread : Thread) (entry : (_ : CacheKey) × Slot)
    (now : Option Time) (valid : state.isValid entry.2 now = true)
    (stale : (state.recordCut thread).isValid entry.2 now = false) :
    (state.recordCut thread).dependentOf thread entry =
      some ⟨entry.2.target, entry.1.capability, true⟩ := by
  have hangs := stales_iff state thread entry.2 now
  rw [valid, stale, Bool.not_false, Bool.and_true, Bool.true_and] at hangs
  obtain ⟨edge, inside, on, reported⟩ := dependent_after_cut state thread entry hangs.symm
  have stands := (current_iff state _).mp (valid_current state entry.2 now valid) edge inside
  rw [reported, ← stands, on, beq_self_eq_true]

end CacheState

namespace ReprCache

/-- The rows read before a cut are those of the entries it makes stale. -/
theorem dependents_at_eq (cache : ReprCache π) (thread : Thread) (now : Option Time) :
    cache.dependentsAt thread now =
      (cache.state.entries.entries.filter fun entry =>
        cache.state.isValid entry.2 now && !(cache.cut thread).state.isValid entry.2 now).map
          fun entry => cache.state.entryEdges now entry := by
  rw [dependentsAt, edgesAt, List.filter_map]
  congr 1
  apply List.filter_congr
  intro entry _
  have same := stales_iff cache.state thread entry.2 now
  rw [show (cache.cut thread).state = cache.state.recordCut thread from rfl, same]
  simp only [Function.comp_apply, entryEdges, rowOf, isValid, Slot.hangsFrom, List.any_map]
  rfl

end ReprCache

section Runs

variable [CachePolicy π]

namespace ReprCache

/-- What an operation does to the state: it files nothing and only trims, it cuts a thread, it
files an answer and trims, or it files a failure. -/
theorem perform_cases (cache : ReprCache π) (op : CacheOp) :
    (op.cutThread = none ∧ (cache.perform op).2.took = false ∧
        Shrinks cache.state (cache.perform op).1.state) ∨
      (∃ thread, op.cutThread = some thread ∧ (cache.perform op).2.took = false ∧
        (cache.perform op).1.state = cache.state.recordCut thread) ∨
      (∃ key target representation taken costMillis incoming remembers,
        op = .store key target representation taken costMillis incoming ∧
        (cache.perform op).2.took = true ∧
        Shrinks (cache.filed remembers key
            (freshSlot cache.state target representation costMillis incoming)).state
          (cache.perform op).1.state) ∨
      ∃ key target error until_ threads taken incoming, ∃ room : KeyedMap CacheKey FailedSlot,
        op = .storeFailure key target error until_ threads taken incoming ∧
        (cache.perform op).1.state = { cache.state with
          failures := room.insert key
            ⟨incoming, target, error, until_, threads, cache.state.pin threads⟩ } := by
  cases op with
  | snapshot => exact .inl ⟨rfl, rfl, Shrinks.refl _⟩
  | publish => exact .inl ⟨rfl, rfl, Shrinks.refl _⟩
  | recordCut thread => exact .inr (.inl ⟨thread, rfl, rfl, rfl⟩)
  | cutWith thread => exact .inr (.inl ⟨thread, rfl, rfl, rfl⟩)
  | store key target representation taken costMillis incoming =>
    rcases store_outcome_cases cache key target representation taken costMillis incoming with
      ⟨tick, remembers, declined, later, _, outcome⟩ |
        ⟨remembers, enforced, _, _, _, _, rfl, outcome⟩
    · refine .inl ⟨rfl, ?_, ?_⟩
      · simp only [perform, outcome, CacheAnswer.took]
      · simp only [perform, outcome]
        exact (Trims.tick _ tick later).shrinks
    · refine .inr (.inr (.inl ⟨key, target, representation, taken, costMillis, incoming, remembers,
        rfl, ?_, ?_⟩))
      · simp only [perform, outcome, CacheAnswer.took]
      · simp only [perform, outcome]
        exact ((enforce_bound_trims _).1.trans (Trims.sweep _ _)).shrinks
  | storeFailure key target error until_ threads taken incoming =>
    rcases store_failure_cases cache key target error until_ threads taken incoming with
      ⟨declined, outcome⟩ | ⟨_, room, _, outcome⟩
    · refine .inl ⟨rfl, ?_, ?_⟩
      · simp only [perform, outcome, CacheAnswer.took]
      · simp only [perform, outcome]
        exact Shrinks.refl _
    · refine .inr (.inr (.inr ⟨key, target, error, until_, threads, taken, incoming, room, rfl, ?_⟩))
      simp only [perform, outcome]
  | get key now => exact .inl ⟨rfl, rfl, (serve_or_offer_spec cache key now _ _).1.shrinks⟩
  | getBody key now => exact .inl ⟨rfl, rfl, (serve_or_offer_spec cache key now _ _).1.shrinks⟩
  | lookup key now buffer incoming offer =>
    exact .inl ⟨rfl, rfl, (serve_or_offer_spec cache key now _ _).1.shrinks⟩
  | getFailure key now incoming =>
    exact .inl ⟨rfl, rfl, (get_failure_spec cache key now incoming).1.shrinks⟩
  | discard key offer => exact .inl ⟨rfl, rfl, (discard_trims cache key offer).1.shrinks⟩

end ReprCache

/-- A run whose named operation stored an answer under a key that no later one replaced. -/
structure Stored (policy : π) (early : List CacheOp) (store : CacheOp) (late : List CacheOp)
    (key : CacheKey) (representation : Representation) : Prop where
  offered : ∃ taken, store.filing = some ⟨key, .answer representation, taken⟩
  took : ((ReprCache.after policy early).perform store).2.took = true
  last : ∀ ahead again behind, late = ahead ++ again :: behind →
    ¬Files (ReprCache.after policy (early ++ store :: ahead)) again key false

/-- An entry hangs from its representation's threads, and each has moved past its pin once for
each of a list of cuts of it. -/
structure Counted (cuts : List Thread) (state : CacheState) (representation : Representation)
    (slot : Slot) : Prop where
  threads : slot.edges.map Prod.fst = representation.threads.items
  moved : ∀ edge ∈ slot.edges, state.generationOf edge.1 = edge.2 + cuts.count edge.1

namespace Counted

variable {cuts : List Thread} {state : CacheState} {representation : Representation}

theorem of_same_generations {after : CacheState} {slot : Slot}
    (counted : Counted cuts state representation slot)
    (same : ∀ thread, after.generationOf thread = state.generationOf thread) :
    Counted cuts after representation slot where
  threads := counted.threads
  moved := fun edge inside => (same edge.1).trans (counted.moved edge inside)

omit [CachePolicy π] in
/-- Filing another entry moves no generation. -/
theorem filed {cache : ReprCache π} {slot : Slot}
    (counted : Counted cuts cache.state representation slot) (remembers : π) (key : CacheKey)
    (fresh : Slot) : Counted cuts (cache.filed remembers key fresh).state representation slot :=
  counted.of_same_generations fun _ => rfl

/-- What trims a state keeps the generations its entries are pinned to. -/
theorem shrinks {after : CacheState} {slot old : Slot} (counted : Counted cuts state representation old)
    (shrinks : Shrinks state after) (key : CacheKey) (held : after.entries.lookup key = some slot)
    (edges : slot.edges = old.edges) : Counted cuts after representation slot where
  threads := edges ▸ counted.threads
  moved := by
    intro edge inside
    have pinned := (pinned_iff after edge.1).mpr (.inl ⟨key, slot, held, edge, inside, rfl⟩)
    rw [shrinks.generation edge.1 pinned]
    exact counted.moved edge (edges ▸ inside)

/-- A cut moves its own thread by one. -/
theorem recordCut {slot : Slot} (counted : Counted cuts state representation slot)
    (thread : Thread) :
    Counted (cuts ++ [thread]) (state.recordCut thread) representation slot where
  threads := counted.threads
  moved := by
    intro edge inside
    have before := counted.moved edge inside
    rw [Guarded.generation_recordCut, List.count_append]
    by_cases same : edge.1 = thread
    · rw [if_pos same, ← same, List.count_singleton_self, before, Nat.add_assoc]
    · rw [if_neg same, List.count_singleton, if_neg (by simpa using Ne.symm same), Nat.add_zero,
        before]

/-- An entry is filed with its threads pinned where they stand. -/
theorem fresh (state : CacheState) (target : Text) (representation : Representation)
    (costMillis : Option Nat) (incoming : Option Provenance) :
    Counted [] state representation
      (ReprCache.freshSlot state target representation costMillis incoming) where
  threads := by
    simp only [ReprCache.freshSlot, pin, List.map_map, Function.comp_def, List.map_id']
  moved := by
    intro edge inside
    obtain ⟨thread, _, rfl⟩ := List.mem_map.mp inside
    rfl

end Counted

/-- What a state holds of the answers a run stored: each is counted by the cuts since. -/
def Traced (policy : π) (ops : List CacheOp) (state : CacheState) : Prop :=
  ∀ early store late key representation, ops = early ++ store :: late →
    Stored policy early store late key representation →
      ∀ slot, state.entries.lookup key = some slot → Counted (cutsOf late) state representation slot

/-- The stores of a longer run are those of the run before its last operation, and that
operation itself. -/
theorem traced_concat {policy : π} {ops : List CacheOp} {op : CacheOp} {state : CacheState}
    (earlier : ∀ early store late key representation, ops = early ++ store :: late →
      Stored policy early store late key representation →
        ¬Files (ReprCache.after policy ops) op key false →
          ∀ slot, state.entries.lookup key = some slot →
            Counted (cutsOf (late ++ [op])) state representation slot)
    (final : ∀ key representation, Stored policy ops op [] key representation →
      ∀ slot, state.entries.lookup key = some slot → Counted [] state representation slot) :
    Traced policy (ops ++ [op]) state := by
  intro early store late key representation split stored slot held
  rcases List.eq_nil_or_concat late with rfl | ⟨before, last, rfl⟩
  · obtain ⟨rfl, ⟨⟩⟩ := List.append_inj' split rfl
    exact final key representation stored slot held
  · rw [List.concat_eq_append, ← List.cons_append, ← List.append_assoc] at split
    obtain ⟨rfl, ⟨⟩⟩ := List.append_inj' split rfl
    rw [List.concat_eq_append] at stored ⊢
    refine earlier early store before key representation rfl ⟨stored.offered, stored.took, ?_⟩
      (stored.last before op [] rfl) slot held
    intro ahead again behind same
    exact stored.last ahead again (behind ++ [op]) (by rw [same, List.append_assoc, List.cons_append])

/-- One operation keeps every stored answer counted. -/
theorem traced_perform (policy : π) (ops : List CacheOp) (op : CacheOp)
    (traced : Traced policy ops (ReprCache.after policy ops).state) :
    Traced policy (ops ++ [op]) ((ReprCache.after policy ops).perform op).1.state := by
  rcases ReprCache.perform_cases (ReprCache.after policy ops) op with
    ⟨uncut, declined, shrinks⟩ | ⟨thread, cut, declined, state⟩ |
      ⟨key, target, representation, taken, costMillis, incoming, remembers, rfl, took, shrinks⟩ |
        ⟨key, target, error, until_, threads, taken, incoming, room, rfl, state⟩
  · apply traced_concat
    · intro early store late asked shown split stored _ slot held
      obtain ⟨old, there, _, _, edges⟩ := shrinks.entry asked slot held
      rw [cutsOf_concat_none late op uncut]
      exact (traced early store late asked shown split stored old there).shrinks shrinks asked held
        edges
    · intro asked shown stored
      rw [stored.took] at declined
      cases declined
  · rw [state]
    apply traced_concat
    · intro early store late asked shown split stored _ slot held
      rw [cutsOf_concat, cut, Option.toList_some]
      exact (traced early store late asked shown split stored slot held).recordCut thread
    · intro asked shown stored
      rw [stored.took] at declined
      cases declined
  · apply traced_concat
    · intro early store late asked shown split stored unfiled slot held
      obtain ⟨old, there, _, _, edges⟩ := shrinks.entry asked slot held
      rw [cutsOf_concat_none late _ rfl]
      by_cases same : asked = key
      · exact absurd ⟨_, rfl, same.symm, rfl, took⟩ unfiled
      · simp only [ReprCache.filed, CacheState.put, KeyedMap.lookup_insert_eq, if_neg same] at there
        have counted := traced early store late asked shown split stored old there
        exact (counted.filed remembers key _).shrinks shrinks asked held edges
    · intro asked shown stored slot held
      obtain ⟨_, offered⟩ := stored.offered
      cases offered
      obtain ⟨old, there, _, _, edges⟩ := shrinks.entry key slot held
      simp only [ReprCache.filed, CacheState.put, KeyedMap.lookup_insert_eq, if_true,
        Option.some.injEq] at there
      subst there
      have counted := Counted.fresh (ReprCache.after policy ops).state target representation costMillis
        incoming
      exact (counted.filed remembers key _).shrinks shrinks key held edges
  · rw [state]
    apply traced_concat
    · intro early store late asked shown split stored _ slot held
      rw [cutsOf_concat_none late _ rfl]
      have counted := traced early store late asked shown split stored slot held
      exact counted.of_same_generations fun _ => rfl
    · intro asked shown stored
      obtain ⟨_, offered⟩ := stored.offered
      cases offered

/-- Every answer a run stored is counted by the cuts since. -/
theorem traced_after (policy : π) (ops : List CacheOp) :
    Traced policy ops (ReprCache.after policy ops).state := by
  induction ops using List.reverseRecOn with
  | nil =>
    intro early store late key representation split
    exact absurd split.symm (List.append_ne_nil_of_right_ne_nil early (List.cons_ne_nil store late))
  | append_singleton ops op ih =>
    rw [ReprCache.after_concat]
    exact traced_perform policy ops op ih

/-- An entry hangs from exactly the threads of what was stored. -/
theorem Counted.hangs_iff {cuts : List Thread} {state : CacheState} {representation : Representation}
    {slot : Slot} (counted : Counted cuts state representation slot) (thread : Thread) :
    slot.hangsFrom thread = true ↔ thread ∈ representation.threads := by
  rw [Slot.hangs_from_iff, ← List.mem_map (f := Prod.fst), counted.threads]
  rfl

/-- A cut reports an entry live exactly when it is the first of its thread since the store. -/
theorem Counted.live_iff {cuts : List Thread} {state : CacheState} {representation : Representation}
    {entry : (_ : CacheKey) × Slot} (counted : Counted cuts state representation entry.2)
    (thread : Thread) :
    (state.recordCut thread).dependentOf thread entry =
        some ⟨entry.2.target, entry.1.capability, true⟩ ↔
      thread ∈ representation.threads ∧ thread ∉ cuts := by
  rw [← counted.hangs_iff thread]
  cases hangs : entry.2.hangsFrom thread with
  | false =>
    have silent := dependent_isSome (state.recordCut thread) thread entry
    rw [hangs, Option.isSome_eq_false_iff, Option.isNone_iff_eq_none] at silent
    simp [silent]
  | true =>
    obtain ⟨edge, inside, on, reported⟩ := dependent_after_cut state thread entry hangs
    have moved := counted.moved edge inside
    rw [on] at moved
    rw [reported, ← List.count_eq_zero]
    simp only [Option.some.injEq, Dependent.mk.injEq, beq_iff_eq, true_and]
    omega

/-- A cut's reach is exact. After any run: the rows read before a cut of a thread are those of
the resident entries it makes stale; the cut reports the resident entries with an edge on the
thread, and as live at least each one it makes stale; and a stored answer that is resident is
reported live exactly by the first cut of a thread of its own since its store. -/
theorem cut_reach_exact (policy : π) (ops : List CacheOp) (thread : Thread) :
    (∀ now, (ReprCache.after policy ops).dependentsAt thread now =
        ((ReprCache.after policy ops).state.entries.entries.filter fun entry =>
          (ReprCache.after policy ops).state.isValid entry.2 now &&
            !((ReprCache.after policy ops).cut thread).state.isValid entry.2 now).map
          fun entry => (ReprCache.after policy ops).state.entryEdges now entry) ∧
      ((ReprCache.after policy ops).cutWith thread).2.2 =
        (ReprCache.after policy ops).state.entries.entries.filterMap
          (((ReprCache.after policy ops).cut thread).state.dependentOf thread) ∧
      (∀ entry, (((ReprCache.after policy ops).cut thread).state.dependentOf thread entry).isSome =
        entry.2.hangsFrom thread) ∧
      (∀ entry now, (ReprCache.after policy ops).state.isValid entry.2 now = true →
        ((ReprCache.after policy ops).cut thread).state.isValid entry.2 now = false →
          ((ReprCache.after policy ops).cut thread).state.dependentOf thread entry =
            some ⟨entry.2.target, entry.1.capability, true⟩) ∧
      ∀ early store late key representation, ops = early ++ store :: late →
        Stored policy early store late key representation →
          ∀ slot, (ReprCache.after policy ops).state.entries.lookup key = some slot →
            (((ReprCache.after policy ops).cut thread).state.dependentOf thread ⟨key, slot⟩ =
                some ⟨slot.target, key.capability, true⟩ ↔
              thread ∈ representation.threads ∧ thread ∉ cutsOf late) := by
  refine ⟨fun now => ReprCache.dependents_at_eq _ thread now, rfl, ?_, ?_, ?_⟩
  · intro entry
    exact dependent_isSome _ thread entry
  · intro entry now valid stale
    exact stale_reported _ thread entry now valid stale
  · intro early store late key representation split stored slot held
    exact (traced_after policy ops early store late key representation split stored slot held).live_iff
      thread

end Runs

namespace CutReachExample

open ServedExample

/-- The first cut of a document after its answer was stored reports it live, the second not. -/
example :
    ((ReprCache.after policy ops).cutWith document).2.2 = [⟨document, 0, true⟩] ∧
      ((ReprCache.after policy (ops ++ [.cutWith document])).cutWith document).2.2 =
        [⟨document, 0, false⟩] := by
  decide

end CutReachExample

end Ikigai
