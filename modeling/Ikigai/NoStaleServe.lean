import Ikigai.CacheHistory

/-!
# Nothing stale is served

The cut log of a state is what a numbered log of the run's cuts would hold, and every edge
of what is held stands at or behind its thread's generation, strictly behind once the
thread was cut after the snapshot the entry was computed under. Every operation keeps
both, so whatever a lookup serves was cut by nothing since.
-/

namespace Ikigai

open CacheState

variable {π : Type}

/-- A state's cut log is the log of a history of cuts. -/
structure Logged (history : List Thread) (state : CacheState) : Prop where
  seq : state.seq = history.length
  horizon : state.horizon ≤ history.length
  cuts : state.cuts = NumberedLog.past history state.horizon

namespace Logged

/-- The log of no cuts is that of the empty state. -/
theorem empty : Logged [] CacheState.empty := ⟨rfl, le_rfl, rfl⟩

/-- A state that shrinks keeps its log. -/
theorem shrinks {history : List Thread} {before after : CacheState}
    (logged : Logged history before) (shrinks : Shrinks before after) : Logged history after where
  seq := shrinks.seq.trans logged.seq
  horizon := shrinks.horizon ▸ logged.horizon
  cuts := by rw [shrinks.cuts, shrinks.horizon, logged.cuts]

/-- Recording a cut appends it, and a full log forgets its oldest and moves its horizon
there. -/
theorem recordCut {history : List Thread} {state : CacheState} (logged : Logged history state)
    (thread : Thread) : Logged (history ++ [thread]) (state.recordCut thread) := by
  have count : (history ++ [thread]).length = history.length + 1 := by simp
  by_cases full : cutLog ≤ state.cuts.length
  · have held : 0 < state.cuts.length := lt_of_lt_of_le (by decide) full
    rw [logged.cuts, NumberedLog.length_past] at held
    obtain ⟨oldest, first⟩ : ∃ oldest, state.cuts.head? = some oldest := by
      rw [← Option.isSome_iff_exists, List.isSome_head?, logged.cuts, ← List.length_pos_iff,
        NumberedLog.length_past]
      exact held
    have moved : (state.recordCut thread).horizon = state.horizon + 1 := by
      simp only [CacheState.recordCut, if_pos full, first]
      exact NumberedLog.head_past history state.horizon oldest (logged.cuts ▸ first)
    refine ⟨?_, ?_, ?_⟩
    · rw [count, ← logged.seq]
      rfl
    · omega
    · rw [moved, NumberedLog.past_concat _ _ _ (by omega), ← NumberedLog.tail_past, ← logged.cuts,
        ← logged.seq]
      simp only [CacheState.recordCut, if_pos full]
  · have same : (state.recordCut thread).horizon = state.horizon := by
      simp only [CacheState.recordCut, if_neg full]
    refine ⟨?_, ?_, ?_⟩
    · rw [count, ← logged.seq]
      rfl
    · have := logged.horizon
      omega
    · rw [same, NumberedLog.past_concat _ _ _ logged.horizon, ← logged.cuts, ← logged.seq]
      simp only [CacheState.recordCut, if_neg full]

/-- The race check lets a store through only when no thread of it was cut after the
number it was taken at. -/
theorem uncut {history : List Thread} {state : CacheState} (logged : Logged history state)
    (threads : ThreadSet) (taken : Nat) (uncut : state.cutSince threads taken = false) :
    ∀ thread ∈ threads, thread ∉ history.drop taken := by
  intro thread member cut
  have some_thread : threads.items.isEmpty = false := by
    rw [List.isEmpty_eq_false_iff]
    exact List.ne_nil_of_mem member
  rw [cutSince, some_thread, if_neg Bool.false_ne_true] at uncut
  by_cases behind : taken < state.horizon
  · rw [if_pos behind] at uncut
    cases uncut
  · rw [if_neg behind, logged.cuts, NumberedLog.recent_any history state.horizon taken
      (fun thread => decide (thread ∈ threads)) (Nat.le_of_not_lt behind), List.any_eq_false] at uncut
    exact uncut thread cut (decide_eq_true member)

end Logged

/-- Edges cover a set of threads, stand at or behind the current generations, and
strictly behind on a thread that was cut after a number. -/
structure Guarded (history : List Thread) (state : CacheState) (threads : ThreadSet)
    (edges : List (Thread × Nat)) (taken : Nat) : Prop where
  covers : ∀ thread ∈ threads, ∃ edge ∈ edges, edge.1 = thread
  pinned : ∀ edge ∈ edges, edge.2 ≤ state.generationOf edge.1
  moved : ∀ edge ∈ edges, edge.1 ∈ history.drop taken → edge.2 < state.generationOf edge.1

namespace Guarded

variable {history : List Thread} {threads : ThreadSet} {edges : List (Thread × Nat)} {taken : Nat}

/-- Edges that all stand at their generations were not cut. -/
theorem current {state : CacheState} (guarded : Guarded history state threads edges taken)
    (stands : state.edgesCurrent edges = true) : ∀ thread ∈ threads, thread ∉ history.drop taken := by
  rintro thread member cut
  obtain ⟨edge, inside, rfl⟩ := guarded.covers thread member
  have same : state.generationOf edge.1 = edge.2 := by
    simpa using List.all_eq_true.mp stands edge inside
  have behind := guarded.moved edge inside cut
  omega

/-- What was just pinned, past the race check, is guarded. -/
theorem pin {state : CacheState} (uncut : ∀ thread ∈ threads, thread ∉ history.drop taken) :
    Guarded history state threads (state.pin threads) taken where
  covers := by
    intro thread member
    exact ⟨(thread, state.generationOf thread), List.mem_map_of_mem member, rfl⟩
  pinned := by
    intro edge inside
    obtain ⟨thread, _, rfl⟩ := List.mem_map.mp inside
    exact le_rfl
  moved := by
    intro edge inside cut
    obtain ⟨thread, member, rfl⟩ := List.mem_map.mp inside
    exact absurd cut (uncut thread member)

/-- What is guarded stays so while the threads of its edges stand where they did. -/
theorem of_same_generations {before after : CacheState}
    (guarded : Guarded history before threads edges taken)
    (same : ∀ edge ∈ edges, after.generationOf edge.1 = before.generationOf edge.1) :
    Guarded history after threads edges taken where
  covers := guarded.covers
  pinned := fun edge inside => by rw [same edge inside]; exact guarded.pinned edge inside
  moved := fun edge inside cut => by rw [same edge inside]; exact guarded.moved edge inside cut

/-- A cut moves its own thread one generation on, and no other. -/
theorem generation_recordCut (state : CacheState) (thread asked : Thread) :
    (state.recordCut thread).generationOf asked =
      if asked = thread then state.generationOf thread + 1 else state.generationOf asked := by
  simp only [generationOf, CacheState.recordCut, KeyedMap.lookup_insert_eq]
  by_cases same : asked = thread
  · rw [if_pos same, if_pos same]
    rfl
  · rw [if_neg same, if_neg same]

/-- A cut moves its own thread's generation past every edge on it. -/
theorem recordCut {state : CacheState} (guarded : Guarded history state threads edges taken)
    (thread : Thread) :
    Guarded (history ++ [thread]) (state.recordCut thread) threads edges taken where
  covers := guarded.covers
  pinned := by
    intro edge inside
    have behind := guarded.pinned edge inside
    rw [generation_recordCut]
    by_cases same : edge.1 = thread
    · rw [if_pos same]
      rw [same] at behind
      omega
    · rwa [if_neg same]
  moved := by
    intro edge inside cut
    have behind := guarded.pinned edge inside
    rw [generation_recordCut]
    by_cases same : edge.1 = thread
    · rw [if_pos same]
      rw [same] at behind
      omega
    · rw [if_neg same]
      apply guarded.moved edge inside
      rw [List.drop_append] at cut
      rcases List.mem_append.mp cut with before | last
      · exact before
      · exact absurd (List.mem_singleton.mp (List.mem_of_mem_drop last)) same

end Guarded

section Runs

variable [CachePolicy π]

/-- An operation that files nothing of a kind under a key leaves the last filing there
the last. -/
theorem LastFiled.concat {policy : π} {ops : List CacheOp} {filing : Filing} {op : CacheOp}
    (last : LastFiled policy ops filing)
    (other : ¬Files (ReprCache.after policy ops) op filing.key filing.held.isFailure) :
    LastFiled policy (ops ++ [op]) filing := by
  obtain ⟨early, filed, late, rfl, offered, took, none_after⟩ := last
  refine ⟨early, filed, late ++ [op], by simp, offered, took, ?_⟩
  intro ahead again behind split
  rcases List.eq_nil_or_concat behind with rfl | ⟨rest, final, rfl⟩
  · obtain ⟨rfl, ⟨⟩⟩ := List.append_inj' split rfl
    exact other
  · rw [List.concat_eq_append, ← List.cons_append, ← List.append_assoc] at split
    obtain ⟨rfl, _⟩ := List.append_inj' split rfl
    exact none_after ahead again rest rfl

/-- What an operation took is the last filing of its kind under its key. -/
theorem LastFiled.fresh {policy : π} {ops : List CacheOp} {filing : Filing} {op : CacheOp}
    (offered : op.filing = some filing)
    (took : ((ReprCache.after policy ops).perform op).2.took = true) :
    LastFiled policy (ops ++ [op]) filing := by
  refine ⟨ops, op, [], rfl, offered, took, ?_⟩
  intro ahead again behind split
  cases ahead <;> cases split

/-- After a run, the log is the log of its cuts, and whatever is held is what was last
filed under its key, guarded since the snapshot it was filed with. -/
structure Sound (policy : π) (ops : List CacheOp) (state : CacheState) : Prop where
  logged : Logged (cutsOf ops) state
  entry : ∀ key slot, state.entries.lookup key = some slot →
    ∃ taken, LastFiled policy ops ⟨key, .answer slot.representation, taken⟩ ∧
      Guarded (cutsOf ops) state slot.representation.threads slot.edges taken
  failure : ∀ key slot, state.failures.lookup key = some slot →
    ∃ taken, LastFiled policy ops ⟨key, .failed ⟨slot.error, slot.until_, slot.threads⟩, taken⟩ ∧
      Guarded (cutsOf ops) state slot.threads slot.edges taken

/-- A run's cuts with a step more are its cuts and then the step's. -/
theorem cutsOf_concat (ops : List CacheOp) (op : CacheOp) :
    cutsOf (ops ++ [op]) = cutsOf ops ++ op.cutThread.toList := by
  rw [cutsOf, List.filterMap_append, ← cutsOf]
  cases cut : op.cutThread <;> simp [cut]

/-- A step that cuts nothing adds none. -/
theorem cutsOf_concat_none (ops : List CacheOp) (op : CacheOp) (uncut : op.cutThread = none) :
    cutsOf (ops ++ [op]) = cutsOf ops := by
  rw [cutsOf_concat, uncut, Option.toList_none, List.append_nil]

namespace Sound

variable {policy : π} {ops : List CacheOp} {state : CacheState}

/-- The empty state is sound under no cuts. -/
theorem empty (policy : π) : Sound policy [] CacheState.empty where
  logged := Logged.empty
  entry := fun _ _ held => nomatch held
  failure := fun _ _ held => nomatch held

/-- Removing things keeps a state sound. -/
theorem shrinks {after : CacheState} (sound : Sound policy ops state)
    (shrinks : Shrinks state after) : Sound policy ops after where
  logged := sound.logged.shrinks shrinks
  entry := by
    intro key slot held
    obtain ⟨old, there, _, shown, edges⟩ := shrinks.entry key slot held
    obtain ⟨taken, last, guarded⟩ := sound.entry key old there
    refine ⟨taken, shown ▸ last, ?_⟩
    rw [shown, edges]
    apply guarded.of_same_generations
    intro edge inside
    exact shrinks.generation edge.1
      ((pinned_iff after edge.1).mpr (.inl ⟨key, slot, held, edge, edges ▸ inside, rfl⟩))
  failure := by
    intro key slot held
    obtain ⟨taken, last, guarded⟩ := sound.failure key slot (shrinks.failure key slot held)
    refine ⟨taken, last, guarded.of_same_generations ?_⟩
    intro edge inside
    exact shrinks.generation edge.1
      ((pinned_iff after edge.1).mpr (.inr ⟨key, slot, held, edge, inside, rfl⟩))

/-- An operation that cuts and files nothing adds nothing to account for. -/
theorem quiet {op : CacheOp} (sound : Sound policy ops state) (uncut : op.cutThread = none)
    (unfiled : ∀ key failure, ¬Files (ReprCache.after policy ops) op key failure) :
    Sound policy (ops ++ [op]) state := by
  have history := cutsOf_concat_none ops op uncut
  refine ⟨history ▸ sound.logged, ?_, ?_⟩
  · intro key slot held
    obtain ⟨taken, last, guarded⟩ := sound.entry key slot held
    exact ⟨taken, last.concat (unfiled _ _), history ▸ guarded⟩
  · intro key slot held
    obtain ⟨taken, last, guarded⟩ := sound.failure key slot held
    exact ⟨taken, last.concat (unfiled _ _), history ▸ guarded⟩

/-- A cut is logged, and moves its thread past every edge on it. -/
theorem recordCut {op : CacheOp} (sound : Sound policy ops state) (thread : Thread)
    (cut : op.cutThread = some thread)
    (unfiled : ∀ key failure, ¬Files (ReprCache.after policy ops) op key failure) :
    Sound policy (ops ++ [op]) (state.recordCut thread) := by
  have history : cutsOf (ops ++ [op]) = cutsOf ops ++ [thread] := by
    rw [cutsOf_concat, cut, Option.toList_some]
  refine ⟨history ▸ sound.logged.recordCut thread, ?_, ?_⟩
  · intro key slot held
    obtain ⟨taken, last, guarded⟩ := sound.entry key slot held
    exact ⟨taken, last.concat (unfiled _ _), history ▸ guarded.recordCut thread⟩
  · intro key slot held
    obtain ⟨taken, last, guarded⟩ := sound.failure key slot held
    exact ⟨taken, last.concat (unfiled _ _), history ▸ guarded.recordCut thread⟩

end Sound

/-- An operation files only under the key and of the kind it offers. -/
theorem not_files_elsewhere {cache : ReprCache π} {op : CacheOp} {filing : Filing}
    (offered : op.filing = some filing) (key : CacheKey) (failure : Bool)
    (other : filing.key ≠ key ∨ filing.held.isFailure ≠ failure) : ¬Files cache op key failure := by
  rintro ⟨same, offers, rfl, rfl, _⟩
  rw [offered, Option.some.injEq] at offers
  subst offers
  rcases other with other | other <;> exact other rfl

/-- What is held elsewhere than where an operation files stays accounted for. -/
theorem LastFiled.still {policy : π} {ops : List CacheOp} {op : CacheOp} {filing : Filing}
    {before after : CacheState} {key : CacheKey} {held : Held} {threads : ThreadSet}
    {edges : List (Thread × Nat)} (offered : op.filing = some filing)
    (uncut : op.cutThread = none)
    (other : filing.key ≠ key ∨ filing.held.isFailure ≠ held.isFailure)
    (accounted : ∃ taken, LastFiled policy ops ⟨key, held, taken⟩ ∧
      Guarded (cutsOf ops) before threads edges taken)
    (same : ∀ thread, after.generationOf thread = before.generationOf thread) :
    ∃ taken, LastFiled policy (ops ++ [op]) ⟨key, held, taken⟩ ∧
      Guarded (cutsOf (ops ++ [op])) after threads edges taken := by
  obtain ⟨taken, last, guarded⟩ := accounted
  refine ⟨taken, last.concat (not_files_elsewhere offered _ _ other), ?_⟩
  rw [cutsOf_concat_none ops op uncut]
  exact guarded.of_same_generations fun edge _ => same edge.1

/-- What an operation files past the race check, pinned as it is filed, is accounted for. -/
theorem LastFiled.accounted {policy : π} {ops : List CacheOp} {op : CacheOp} {filing : Filing}
    {before after : CacheState} {threads : ThreadSet} (logged : Logged (cutsOf ops) before)
    (offered : op.filing = some filing) (uncut : op.cutThread = none)
    (took : ((ReprCache.after policy ops).perform op).2.took = true)
    (unraced : before.cutSince threads filing.taken = false)
    (same : ∀ thread, after.generationOf thread = before.generationOf thread) :
    ∃ taken, LastFiled policy (ops ++ [op]) ⟨filing.key, filing.held, taken⟩ ∧
      Guarded (cutsOf (ops ++ [op])) after threads (before.pin threads) taken := by
  refine ⟨filing.taken, LastFiled.fresh offered took, ?_⟩
  rw [cutsOf_concat_none ops op uncut]
  exact (Guarded.pin (logged.uncut threads filing.taken unraced)).of_same_generations
    fun edge _ => same edge.1

/-- Filing an answer, past the race check. -/
theorem Sound.filed {policy : π} {ops : List CacheOp} {op : CacheOp}
    (sound : Sound policy ops (ReprCache.after policy ops).state) (remembers : π) (key : CacheKey)
    (target : Text) (representation : Representation) (taken : Nat) (costMillis : Option Nat)
    (incoming : Option Provenance)
    (offered : op.filing = some ⟨key, .answer representation, taken⟩) (uncut : op.cutThread = none)
    (took : ((ReprCache.after policy ops).perform op).2.took = true)
    (unraced : (ReprCache.after policy ops).state.cutSince representation.threads taken = false) :
    Sound policy (ops ++ [op]) ((ReprCache.after policy ops).filed remembers key
      (ReprCache.freshSlot (ReprCache.after policy ops).state target representation costMillis
        incoming)).state := by
  refine ⟨?_, ?_, ?_⟩
  · rw [cutsOf_concat_none ops op uncut]
    exact ⟨sound.logged.seq, sound.logged.horizon, sound.logged.cuts⟩
  · intro asked slot held
    simp only [ReprCache.filed, CacheState.put, KeyedMap.lookup_insert_eq] at held
    by_cases same : asked = key
    · rw [if_pos same, Option.some.injEq] at held
      subst held same
      exact LastFiled.accounted sound.logged offered uncut took unraced fun _ => rfl
    · rw [if_neg same] at held
      exact LastFiled.still offered uncut (.inl (Ne.symm same))
        (sound.entry asked slot held) fun _ => rfl
  · intro asked slot held
    simp only [ReprCache.filed, CacheState.put, KeyedMap.lookup_erase_eq] at held
    by_cases same : asked = key
    · rw [if_pos same] at held
      cases held
    · rw [if_neg same] at held
      exact LastFiled.still offered uncut (.inl (Ne.symm same))
        (sound.failure asked slot held) fun _ => rfl

/-- Filing a failure, past the race check. -/
theorem Sound.failed {policy : π} {ops : List CacheOp} {op : CacheOp} {state : CacheState}
    (sound : Sound policy ops state) (key : CacheKey) (target : Text) (error : Error)
    (until_ : Time) (threads : ThreadSet) (taken : Nat) (incoming : Option Provenance)
    (offered : op.filing = some ⟨key, .failed ⟨error, until_, threads⟩, taken⟩)
    (uncut : op.cutThread = none)
    (took : ((ReprCache.after policy ops).perform op).2.took = true)
    (unraced : state.cutSince threads taken = false) (room : KeyedMap CacheKey FailedSlot)
    (kept : ∀ asked slot, room.lookup asked = some slot → state.failures.lookup asked = some slot) :
    Sound policy (ops ++ [op]) { state with
      failures := room.insert key
        ⟨incoming, target, error, until_, threads, state.pin threads⟩ } := by
  refine ⟨?_, ?_, ?_⟩
  · rw [cutsOf_concat_none ops op uncut]
    exact ⟨sound.logged.seq, sound.logged.horizon, sound.logged.cuts⟩
  · intro asked slot held
    exact LastFiled.still offered uncut (.inr Bool.true_eq_false_eq_False)
      (sound.entry asked slot held) fun _ => rfl
  · intro asked slot held
    rw [KeyedMap.lookup_insert_eq] at held
    by_cases same : asked = key
    · rw [if_pos same, Option.some.injEq] at held
      subst held same
      exact LastFiled.accounted sound.logged offered uncut took unraced fun _ => rfl
    · rw [if_neg same] at held
      exact LastFiled.still offered uncut (.inl (Ne.symm same))
        (sound.failure asked slot (kept asked slot held)) fun _ => rfl

/-- An operation that offers nothing files nothing. -/
theorem not_files_of_none {cache : ReprCache π} {op : CacheOp} (offers : op.filing = none)
    (key : CacheKey) (failure : Bool) : ¬Files cache op key failure := by
  rintro ⟨filing, offered, _⟩
  rw [offers] at offered
  cases offered

/-- An operation that took nothing files nothing. -/
theorem not_files_of_declined {cache : ReprCache π} {op : CacheOp}
    (declined : (cache.perform op).2.took = false) (key : CacheKey) (failure : Bool) :
    ¬Files cache op key failure := by
  rintro ⟨filing, _, _, _, took⟩
  rw [declined] at took
  cases took

/-- A published number is one that was recorded. -/
def Published (cache : ReprCache π) : Prop := cache.cutSeq ≤ cache.state.seq

/-- One operation keeps a sound cache sound. -/
theorem sound_perform (policy : π) (ops : List CacheOp) (op : CacheOp)
    (sound : Sound policy ops (ReprCache.after policy ops).state)
    (published : Published (ReprCache.after policy ops)) :
    Sound policy (ops ++ [op]) ((ReprCache.after policy ops).perform op).1.state ∧
      Published ((ReprCache.after policy ops).perform op).1 := by
  -- An operation that neither cuts nor files only shrinks the state.
  have quiet : op.cutThread = none →
      (∀ key failure, ¬Files (ReprCache.after policy ops) op key failure) →
      ∀ after : ReprCache π, Shrinks (ReprCache.after policy ops).state after.state →
        after.cutSeq = (ReprCache.after policy ops).cutSeq →
        Sound policy (ops ++ [op]) after.state ∧ Published after := by
    intro uncut unfiled after shrinks same
    refine ⟨(sound.quiet uncut unfiled).shrinks shrinks, ?_⟩
    rw [Published, same, shrinks.seq]
    exact published
  cases op with
  | snapshot => exact quiet rfl (not_files_of_none rfl) _ (Shrinks.refl _) rfl
  | publish =>
    refine ⟨sound.quiet rfl (not_files_of_none rfl), ?_⟩
    exact le_refl (ReprCache.after policy ops).state.seq
  | recordCut thread =>
    refine ⟨sound.recordCut thread rfl (not_files_of_none rfl), ?_⟩
    exact Nat.le_succ_of_le published
  | cutWith thread =>
    refine ⟨sound.recordCut thread rfl (not_files_of_none rfl), ?_⟩
    exact le_refl ((ReprCache.after policy ops).state.seq + 1)
  | store key target representation taken costMillis incoming =>
    rcases ReprCache.store_outcome_cases (ReprCache.after policy ops) key target representation taken
      costMillis incoming with ⟨tick, remembers, declined, later, _, outcome⟩ |
        ⟨remembers, enforced, _, unraced, _, _, rfl, outcome⟩
    · have trims : Trims (ReprCache.after policy ops).state ((ReprCache.after policy ops).perform
          (.store key target representation taken costMillis incoming)).1.state := by
        simp only [ReprCache.perform, outcome]
        exact Trims.tick _ tick later
      refine quiet rfl (not_files_of_declined ?_) _ trims.shrinks ?_ <;>
        simp only [ReprCache.perform, outcome, CacheAnswer.took]
    · have took : ((ReprCache.after policy ops).perform
          (.store key target representation taken costMillis incoming)).2.took = true := by
        simp only [ReprCache.perform, outcome, CacheAnswer.took]
      have filed := Sound.filed sound remembers key target representation taken costMillis incoming
        rfl rfl took unraced
      have bounded := ReprCache.enforce_bound_trims ((ReprCache.after policy ops).filed remembers key
        (ReprCache.freshSlot (ReprCache.after policy ops).state target representation costMillis
          incoming))
      have swept := bounded.1.trans (Trims.sweep _
        (CachePolicy.capacity (ReprCache.enforceBound ((ReprCache.after policy ops).filed remembers key
          (ReprCache.freshSlot (ReprCache.after policy ops).state target representation costMillis
            incoming))).policy).maxEntries)
      simp only [ReprCache.perform, outcome]
      refine ⟨filed.shrinks swept.shrinks, ?_⟩
      rw [Published, bounded.2, swept.shrinks.seq]
      exact published
  | storeFailure key target error until_ threads taken incoming =>
    rcases ReprCache.store_failure_cases (ReprCache.after policy ops) key target error until_ threads
      taken incoming with ⟨declined, outcome⟩ | ⟨unraced, room, kept, outcome⟩
    · simp only [ReprCache.perform, outcome]
      refine quiet rfl (not_files_of_declined ?_) _ (Shrinks.refl _) rfl
      simp only [ReprCache.perform, outcome, CacheAnswer.took]
    · have took : ((ReprCache.after policy ops).perform
          (.storeFailure key target error until_ threads taken incoming)).2.took = true := by
        simp only [ReprCache.perform, outcome, CacheAnswer.took]
      simp only [ReprCache.perform, outcome]
      exact ⟨Sound.failed sound key target error until_ threads taken incoming rfl rfl took unraced
        room kept, published⟩
  | get key now =>
    have spec := ReprCache.serve_or_offer_spec (ReprCache.after policy ops) key now
      (fun entry => entry.representation.copied) fun _ => none
    exact quiet rfl (not_files_of_none rfl) _ spec.1.shrinks (congrArg ReprCache.cutSeq spec.2.1 :)
  | getBody key now =>
    have spec := ReprCache.serve_or_offer_spec (ReprCache.after policy ops) key now
      (fun entry => entry.representation.share) fun _ => none
    exact quiet rfl (not_files_of_none rfl) _ spec.1.shrinks (congrArg ReprCache.cutSeq spec.2.1 :)
  | lookup key now buffer incoming offer =>
    have spec := ReprCache.serve_or_offer_spec (ReprCache.after policy ops) key now
      (ReprCache.answerFace buffer incoming) (ReprCache.offerFace offer incoming)
    exact quiet rfl (not_files_of_none rfl) _ spec.1.shrinks (congrArg ReprCache.cutSeq spec.2.1 :)
  | getFailure key now incoming =>
    have spec := ReprCache.get_failure_spec (ReprCache.after policy ops) key now incoming
    exact quiet rfl (not_files_of_none rfl) _ spec.1.shrinks (congrArg ReprCache.cutSeq spec.2.1 :)
  | discard key offer =>
    have spec := ReprCache.discard_trims (ReprCache.after policy ops) key offer
    exact quiet rfl (not_files_of_none rfl) _ spec.1.shrinks (congrArg ReprCache.cutSeq spec.2 :)

/-- The cache is sound after every run. -/
theorem sound_after (policy : π) (ops : List CacheOp) :
    Sound policy ops (ReprCache.after policy ops).state ∧ Published (ReprCache.after policy ops) := by
  induction ops using List.reverseRecOn with
  | nil => exact ⟨Sound.empty policy, le_refl 0⟩
  | append_singleton ops op ih =>
    rw [ReprCache.after_concat]
    exact sound_perform policy ops op ih.1 ih.2

/-- An answer that is live has current edges. -/
theorem live_current (state : CacheState) (slot : Slot) (now : Option Time)
    (live : state.stateOf slot now = .live) : state.edgesCurrent slot.edges = true := by
  by_contra stale
  rw [stateOf, if_neg stale] at live
  cases live

/-- So has a failure that is live. -/
theorem live_failure_current (state : CacheState) (slot : FailedSlot) (now : Option Time)
    (live : state.failureState slot now = .live) : state.edgesCurrent slot.edges = true := by
  by_contra stale
  rw [failureState, if_neg stale] at live
  cases live

/-- Whatever the kernel's caller is answered is the entry's representation. -/
theorem answer_face_shows (buffer : Bool) (incoming : Option Provenance) (entry : Slot)
    (answer : Answer) (shown : ReprCache.answerFace buffer incoming entry = some answer) :
    (CacheAnswer.answered (.hit answer)).serves = some (.answer entry.representation) := by
  rw [ReprCache.answerFace] at shown
  by_cases other : entry.incoming ≠ incoming
  · rw [if_pos other] at shown
    cases shown
  · rw [if_neg other] at shown
    split at shown
    · rename_i copy copied
      cases shown
      by_cases wants : buffer = true
      · rw [if_pos wants] at copied
        rw [CacheAnswer.serves, entry.representation.copied_eq_some copy copied]
      · rw [if_neg wants] at copied
        cases copied
    · obtain ⟨handle, shared, rfl⟩ := Option.map_eq_some_iff.mp shown
      rw [CacheAnswer.serves, entry.representation.share_eq_some handle shared]

/-- What an operation serves out of a sound cache is the last filing under its key, whose
threads were not cut after the number it was taken at. -/
theorem served_is_filed {policy : π} {ops : List CacheOp}
    (sound : Sound policy ops (ReprCache.after policy ops).state) (op : CacheOp) (held : Held)
    (serves : ((ReprCache.after policy ops).perform op).2.serves = some held) :
    ∃ key taken, op.reads = some key ∧ LastFiled policy ops ⟨key, held, taken⟩ ∧
      ∀ thread ∈ held.threads, thread ∉ (cutsOf ops).drop taken := by
  -- A face that shows an entry's own representation serves what the entry was filed with.
  have of_face : ∀ {τ : Type} (key : CacheKey) (now : Option Time) (face : Slot → Option τ)
      (offer : Slot → Option Offer) (wrap : Served τ → CacheAnswer),
      (∀ answer slot, face slot = some answer →
        (wrap (.hit answer)).serves = some (.answer slot.representation)) →
      (∀ stale, (wrap (.offer stale)).serves = none) → (wrap .miss).serves = none →
      (wrap ((ReprCache.after policy ops).serveOrOffer key now face offer).2).serves = some held →
        ∃ taken, LastFiled policy ops ⟨key, held, taken⟩ ∧
          ∀ thread ∈ held.threads, thread ∉ (cutsOf ops).drop taken := by
    intro τ key now face offer wrap shows offers misses serves
    cases found : ((ReprCache.after policy ops).serveOrOffer key now face offer).2 with
    | hit answer =>
      obtain ⟨slot, there, live, shown⟩ := (ReprCache.serve_or_offer_spec _ key now face offer).2.2
        answer found
      rw [found, shows answer slot shown, Option.some.injEq] at serves
      subst serves
      obtain ⟨taken, last, guarded⟩ := sound.entry key slot there
      exact ⟨taken, last, guarded.current (live_current _ slot now live)⟩
    | offer stale =>
      rw [found, offers stale] at serves
      cases serves
    | miss =>
      rw [found, misses] at serves
      cases serves
  cases op with
  | get key now =>
    obtain ⟨taken, filed⟩ := of_face key now _ _ CacheAnswer.served
      (fun answer slot copied => by
        rw [CacheAnswer.serves, slot.representation.copied_eq_some answer copied])
      (fun _ => rfl) rfl serves
    exact ⟨key, taken, rfl, filed⟩
  | getBody key now =>
    obtain ⟨taken, filed⟩ := of_face key now _ _ CacheAnswer.served
      (fun answer slot shared => by
        rw [CacheAnswer.serves, slot.representation.share_eq_some answer shared])
      (fun _ => rfl) rfl serves
    exact ⟨key, taken, rfl, filed⟩
  | lookup key now buffer incoming offer =>
    obtain ⟨taken, filed⟩ := of_face key now _ _ CacheAnswer.answered
      (fun answer slot shown => answer_face_shows buffer incoming slot answer shown)
      (fun _ => rfl) rfl serves
    exact ⟨key, taken, rfl, filed⟩
  | getFailure key now incoming =>
    have spec := (ReprCache.get_failure_spec (ReprCache.after policy ops) key now incoming).2.2
    simp only [ReprCache.perform] at serves
    cases found : ((ReprCache.after policy ops).getFailure key now incoming).2 with
    | none =>
      rw [found] at serves
      cases serves
    | some failure =>
      obtain ⟨slot, there, live, rfl⟩ := spec failure found
      rw [found] at serves
      cases serves
      obtain ⟨taken, last, guarded⟩ := sound.failure key slot there
      exact ⟨key, taken, rfl, last, guarded.current (live_failure_current _ slot now live)⟩
  | snapshot => cases serves
  | recordCut thread => cases serves
  | publish => cases serves
  | cutWith thread => cases serves
  | store key target representation taken costMillis incoming => cases serves
  | storeFailure key target error until_ threads taken incoming => cases serves
  | discard key offer => cases serves

/-- No stale serve: whatever an operation serves after a run was filed under its key by an
operation of that run, as the last of its kind there, and none of its threads was cut after
any snapshot with that filing's number was taken: no cut was recorded after the snapshot,
and none recorded before it was still to be published. -/
theorem no_stale_serve (policy : π) (ops : List CacheOp) (op : CacheOp) (held : Held)
    (serves : ((ReprCache.after policy ops).perform op).2.serves = some held) :
    ∃ key taken early filed late, op.reads = some key ∧ ops = early ++ filed :: late ∧
      filed.filing = some ⟨key, held, taken⟩ ∧
      ((ReprCache.after policy early).perform filed).2.took = true ∧
      (∀ ahead again behind, late = ahead ++ again :: behind →
        ¬Files (ReprCache.after policy (early ++ filed :: ahead)) again key held.isFailure) ∧
      ∀ ahead since, early = ahead ++ .snapshot :: since →
        (ReprCache.after policy ahead).snapshot = taken → ∀ thread ∈ held.threads,
          thread ∉ (cutsOf ahead).drop taken ∧ thread ∉ cutsOf (since ++ filed :: late) := by
  obtain ⟨key, taken, reads, ⟨early, filed, late, rfl, offered, took, last⟩, uncut⟩ :=
    served_is_filed (sound_after policy ops).1 op held serves
  refine ⟨key, taken, early, filed, late, reads, rfl, offered, took, last, ?_⟩
  rintro ahead since rfl read thread member
  obtain ⟨sound, published⟩ := sound_after policy ahead
  have within : taken ≤ (cutsOf ahead).length := by
    rw [← read, ← sound.logged.seq]
    exact published
  have history : cutsOf (ahead ++ .snapshot :: since ++ filed :: late) =
      cutsOf ahead ++ cutsOf (since ++ filed :: late) := by
    rw [List.append_assoc, cutsOf, List.filterMap_append]
    rfl
  have clear := uncut thread member
  rw [history, List.drop_append_of_le_length within, List.mem_append, not_or] at clear
  exact clear

end Runs

/-!
One request stores an answer that depends on a document cut before it began; another
document is cut after.
-/

namespace ServedExample

def key : CacheKey := ⟨⟨Vector.replicate 32 0⟩, 0, 0⟩

def document : Thread := "urn:doc:a".toList

def answer : Representation where
  reprType := ⟨"text/plain".toList, []⟩
  body := .bytes [104, 105]
  expiry := .never
  threads := OrderedSet.ofList [document]
  validator := none
  revalidated := false

def policy : ShippedPolicy := .simple (.lru ⟨16, 1024⟩)

def ops : List CacheOp :=
  [.cutWith document, .snapshot, .store key document answer 1 none none,
    .cutWith "urn:doc:b".toList]

/-- The example's answer is served, and its document was cut before the request that stored it. -/
theorem answer_is_served : ∃ key taken early filed late,
    (CacheOp.getBody ServedExample.key none).reads = some key ∧ ops = early ++ filed :: late ∧
      filed.filing = some ⟨key, .answer answer, taken⟩ ∧
      ((ReprCache.after policy early).perform filed).2.took = true ∧
      (∀ ahead again behind, late = ahead ++ again :: behind →
        ¬Files (ReprCache.after policy (early ++ filed :: ahead)) again key false) ∧
      ∀ ahead since, early = ahead ++ .snapshot :: since →
        (ReprCache.after policy ahead).snapshot = taken → ∀ thread ∈ answer.threads,
          thread ∉ (cutsOf ahead).drop taken ∧ thread ∉ cutsOf (since ++ filed :: late) :=
  no_stale_serve policy ops (.getBody key none) (.answer answer) (by decide)

end ServedExample

end Ikigai
