import Ikigai.CutListeners

/-!
# What a listener hears between two drains

Registrations, cuts, drains and whatever else is done to the cache, in any order. Between two
times its queue is taken, a listener's batch is the first of the cuts it was entitled to hear
in that window, in the order of their numbers, and the drop count is the number of the rest.
-/

namespace Ikigai

variable {π : Type}

/-- One step: by a host, by a writer, or by whoever uses the cache without cutting. -/
inductive ListenStep where
  | listen (spec : ListenSpec) (capability : Capability)
  | forget (number : Nat)
  | cut (thread : Thread)
  | drain (number : Nat)
  | poll (number : Nat) (waker : Waker)
  | work (op : CacheOp) (uncut : op.cutThread = none)

namespace Listeners

/-- The weak list names whoever lives, each once, and its length is counted. -/
structure Sound (listeners : Listeners) : Prop where
  counted : listeners.count = listeners.list.length
  once : listeners.list.Nodup
  known : ∀ number ∈ listeners.list, number < listeners.shared.length
  listed : ∀ number listener, listeners.upgrade number = some listener → number ∈ listeners.list

/-- Who lives was registered. -/
theorem upgrade_lt {listeners : Listeners} {number : Nat} {listener : CutListener}
    (lives : listeners.upgrade number = some listener) : number < listeners.shared.length := by
  obtain ⟨there, _⟩ := Option.filter_eq_some_iff.mp lives
  exact (List.getElem?_eq_some_iff.mp there).1

/-- Who is upgraded lives. -/
theorem upgrade_alive {listeners : Listeners} {number : Nat} {listener : CutListener}
    (lives : listeners.upgrade number = some listener) : listener.alive = true :=
  (Option.filter_eq_some_iff.mp lives).2

/-- One listener changed, and the others as they were. -/
theorem upgrade_update (listeners : Listeners) {number : Nat} {listener : CutListener}
    (lives : listeners.upgrade number = some listener) (changed : CutListener) (other : Nat) :
    (listeners.update number changed).upgrade other =
      if other = number then (some changed).filter CutListener.alive
      else listeners.upgrade other := by
  rw [upgrade, update, List.getElem?_set]
  by_cases same : other = number
  · subst same
    rw [if_pos rfl, if_pos (upgrade_lt lives), if_pos rfl]
  · rw [if_neg (Ne.symm same), if_neg same]
    rfl

/-- Changing one listener leaves the others. -/
theorem upgrade_update_beside {listeners : Listeners} {other number : Nat}
    {listener changed : CutListener} (lives : listeners.upgrade other = some listener)
    (beside : number ≠ other) :
    (listeners.update other changed).upgrade number = listeners.upgrade number := by
  rw [upgrade_update listeners lives, if_neg beside]

/-- A change to a listener that lives keeps the registry sound. -/
theorem Sound.update {listeners : Listeners} (sound : listeners.Sound) {number : Nat}
    {listener : CutListener} (lives : listeners.upgrade number = some listener)
    (changed : CutListener) : (listeners.update number changed).Sound := by
  refine ⟨sound.counted, sound.once, fun other inside => ?_, fun other found there => ?_⟩
  · rw [Listeners.update, List.length_set]
    exact sound.known other inside
  · rw [upgrade_update listeners lives] at there
    split at there
    · rename_i same
      exact same ▸ sound.listed number listener lives
    · exact sound.listed other found there

/-- A sweep keeps the registry sound: it forgets the dead alone. -/
theorem Sound.sweep {listeners : Listeners} (sound : listeners.Sound) : listeners.sweep.Sound := by
  refine ⟨rfl, sound.once.filter _, fun number inside => ?_, fun number listener lives => ?_⟩
  · exact sound.known number (List.mem_filter.mp inside).1
  · have lives : listeners.upgrade number = some listener := lives
    exact List.mem_filter.mpr ⟨sound.listed number listener lives, by rw [lives]; rfl⟩

/-- Who lives before a registration, lives after it, and the new one does. -/
theorem upgrade_register (listeners : Listeners) (spec : ListenSpec) (hearing : Hearing)
    (number : Nat) :
    (listeners.register spec hearing).upgrade number =
      if number = listeners.shared.length then some { spec := spec, hearing := hearing }
      else listeners.upgrade number := by
  rw [upgrade, register, List.getElem?_append]
  by_cases new : number = listeners.shared.length
  · subst new
    rw [if_neg (Nat.lt_irrefl _), Nat.sub_self, if_pos rfl]
    rfl
  · rw [if_neg new, upgrade]
    split
    · rfl
    · rename_i outside
      rw [List.getElem?_eq_none (by rw [List.length_singleton]; omega),
        List.getElem?_eq_none (Nat.le_of_not_lt outside)]

/-- A registration keeps it sound, with the new listener in it. -/
theorem Sound.register {listeners : Listeners} (sound : listeners.Sound) (spec : ListenSpec)
    (hearing : Hearing) : (listeners.register spec hearing).Sound := by
  refine ⟨rfl, ?_, fun number inside => ?_, fun number listener lives => ?_⟩
  · refine List.nodup_append.mpr ⟨sound.sweep.once, List.nodup_singleton _, ?_⟩
    rintro number inside _ new rfl
    rw [List.mem_singleton.mp new] at inside
    exact lt_irrefl _ (sound.sweep.known _ inside)
  · rw [Listeners.register, List.length_append, List.length_singleton]
    rcases List.mem_append.mp inside with old | new
    · exact Nat.lt_succ_of_lt (sound.sweep.known number old)
    · rw [List.mem_singleton.mp new]
      exact Nat.lt_succ_self _
  · rw [upgrade_register] at lives
    split at lives
    · rename_i new
      rw [new]
      exact List.mem_append_right _ List.mem_cons_self
    · exact List.mem_append_left _ (sound.sweep.listed number listener lives)

/-- A dropped registration keeps it sound: the weak list may still name the dead. -/
theorem Sound.forget {listeners : Listeners} (sound : listeners.Sound) (number : Nat) :
    (listeners.forget number).Sound := by
  rw [Listeners.forget]
  split
  · rename_i listener lives
    exact sound.update lives _
  · exact sound

/-- Asking who is interested changes no listener, and tells whether one that lives is. -/
theorem Sound.interested {listeners : Listeners} (sound : listeners.Sound) (thread : Thread) :
    (listeners.interested thread).1.Sound ∧
      (∀ number, (listeners.interested thread).1.upgrade number = listeners.upgrade number) ∧
      ((listeners.interested thread).2 = true ↔ ∃ number listener,
        listeners.upgrade number = some listener ∧ listener.spec.matches thread = true) := by
  rw [Listeners.interested]
  split
  · rename_i none
    refine ⟨sound, fun _ => rfl, ?_⟩
    constructor
    · intro no
      cases no
    · rintro ⟨number, listener, lives, _⟩
      have inside := sound.listed number listener lives
      rw [sound.counted, List.length_eq_zero_iff] at none
      rw [none] at inside
      cases inside
  · refine ⟨?_, fun number => ?_, ?_⟩
    · dsimp only
      split
      · exact sound.sweep
      · exact sound
    · dsimp only
      split <;> rfl
    · dsimp only
      rw [List.any_eq_true]
      constructor
      · rintro ⟨number, _, wants⟩
        obtain ⟨listener, lives, wants⟩ := (Option.any_eq_true _ _).mp wants
        exact ⟨number, listener, lives, wants⟩
      · rintro ⟨number, listener, lives, wants⟩
        exact ⟨number, sound.listed number listener lives,
          (Option.any_eq_true _ _).mpr ⟨listener, lives, wants⟩⟩

/-- Hearing kills no listener. -/
theorem hear_alive (listener : CutListener) (thread : Thread) (sequence : Nat)
    (dependents : List Dependent) :
    (listener.hear thread sequence dependents).1.alive = listener.alive := by
  rw [CutListener.hear]
  split
  · dsimp only
    split <;> rfl
  · rfl

/-- Telling some listeners, each once, is each of them hearing it, and the others nothing. -/
theorem tell_all (thread : Thread) (sequence : Nat) (dependents : List Dependent)
    (numbers : List Nat) (once : numbers.Nodup) (told : Listeners × List Waker)
    (sound : told.1.Sound) :
    (numbers.foldl (tell thread sequence dependents) told).1.Sound ∧
      ∀ number, (numbers.foldl (tell thread sequence dependents) told).1.upgrade number =
        (told.1.upgrade number).map fun listener =>
          if number ∈ numbers then (listener.hear thread sequence dependents).1 else listener := by
  induction numbers generalizing told with
  | nil =>
    refine ⟨sound, fun number => ?_⟩
    simp
  | cons first rest ih =>
    obtain ⟨fresh, once⟩ := List.nodup_cons.mp once
    rw [List.foldl_cons]
    cases lives : told.1.upgrade first with
    | none =>
      have skipped : tell thread sequence dependents told first = told := by rw [tell, lives]
      rw [skipped]
      refine ⟨(ih once told sound).1, fun number => ?_⟩
      rw [(ih once told sound).2]
      by_cases same : number = first
      · rw [same, lives]
        rfl
      · simp only [List.mem_cons, same, false_or]
    | some listener =>
      have heard : (tell thread sequence dependents told first).1 =
          told.1.update first (listener.hear thread sequence dependents).1 := by rw [tell, lives]
      have still := sound.update lives (listener.hear thread sequence dependents).1
      rw [← heard] at still
      refine ⟨(ih once _ still).1, fun number => ?_⟩
      rw [(ih once _ still).2, heard, upgrade_update _ lives]
      by_cases same : number = first
      · subst same
        have alive := (hear_alive listener thread sequence dependents).trans (upgrade_alive lives)
        rw [if_pos rfl, Option.filter_some, alive, if_pos rfl, lives, Option.map_some,
          Option.map_some, if_neg fresh, if_pos List.mem_cons_self]
      · rw [if_neg same]
        simp only [List.mem_cons, same, false_or]

/-- A cut delivered keeps the registry sound, and each listener that lives hears it once. -/
theorem Sound.deliver {listeners : Listeners} (sound : listeners.Sound) (thread : Thread)
    (sequence : Nat) (dependents : List Dependent) :
    (listeners.deliver thread sequence dependents).1.Sound ∧
      ∀ number, (listeners.deliver thread sequence dependents).1.upgrade number =
        (listeners.upgrade number).map fun listener =>
          (listener.hear thread sequence dependents).1 := by
  have told := tell_all thread sequence dependents listeners.list sound.once (listeners, []) sound
  refine ⟨told.1, fun number => (told.2 number).trans ?_⟩
  cases lives : listeners.upgrade number with
  | none => rfl
  | some listener =>
    rw [Option.map_some, Option.map_some, if_pos (sound.listed number listener lives)]

end Listeners

namespace ListeningKernel

variable [CachePolicy π] [IriSyntax] [RequestHash]

/-- One step. -/
def perform (kernel : ListeningKernel π) : ListenStep → ListeningKernel π
  | .listen spec capability =>
    match kernel.listen spec capability with
    | .ok opened => opened.1
    | .error _ => kernel
  | .forget number => { kernel with listeners := kernel.listeners.forget number }
  | .cut thread => (kernel.cut thread).1
  | .drain number =>
    match kernel.listeners.upgrade number with
    | some listener =>
      { kernel with listeners := kernel.listeners.update number listener.drain.1 }
    | none => kernel
  | .poll number waker =>
    match kernel.listeners.upgrade number with
    | some listener =>
      { kernel with listeners := kernel.listeners.update number (listener.poll waker).1 }
    | none => kernel
  | .work op _ => { kernel with cache := (kernel.cache.perform op).1 }

/-- The batch a step hands to the host of a listener. -/
def taken (kernel : ListeningKernel π) (number : Nat) : ListenStep → Option CutBatch
  | .drain other =>
    if other = number then
      (kernel.listeners.upgrade number).map fun listener => listener.drain.2
    else none
  | .poll other waker =>
    if other = number then
      (kernel.listeners.upgrade number).bind fun listener => (listener.poll waker).2
    else none
  | _ => none

/-- The kernel after some steps. -/
def after (policy : π) (steps : List ListenStep) : ListeningKernel π :=
  steps.foldl perform ⟨.new policy, {}⟩

/-- A run with a step more is the run, and then the step. -/
theorem after_concat (policy : π) (steps : List ListenStep) (step : ListenStep) :
    after policy (steps ++ [step]) = (after policy steps).perform step := by
  rw [after, List.foldl_concat]
  rfl

/-- What a run reaches: a sound registry, and a cache that some operations made. -/
structure Reached (policy : π) (kernel : ListeningKernel π) : Prop where
  listeners : kernel.listeners.Sound
  cache : ∃ ops, kernel.cache = ReprCache.after policy ops

omit [IriSyntax] [RequestHash] in
/-- An operation that cuts nothing leaves the number of cuts. -/
theorem seq_of_uncut (policy : π) (ops : List CacheOp) (op : CacheOp) (uncut : op.cutThread = none) :
    ((ReprCache.after policy ops).perform op).1.state.seq = (ReprCache.after policy ops).state.seq := by
  rw [← ReprCache.after_concat, (sound_after policy _).1.logged.seq,
    (sound_after policy ops).1.logged.seq, cutsOf_concat_none ops op uncut]

omit [IriSyntax] [RequestHash] in
/-- A cut takes the next number, and leaves the registry sound. -/
theorem Reached.cut {policy : π} {kernel : ListeningKernel π} (reached : Reached policy kernel)
    (thread : Thread) :
    Reached policy (kernel.cut thread).1 ∧
      (kernel.cut thread).1.cache.state.seq = kernel.cache.state.seq + 1 := by
  obtain ⟨ops, made⟩ := reached.cache
  obtain ⟨sound, _, _⟩ := reached.listeners.interested thread
  rw [ListeningKernel.cut]
  dsimp only
  split
  · refine ⟨⟨(sound.deliver thread _ _).1, ops ++ [.cutWith thread], ?_⟩, rfl⟩
    rw [ReprCache.after_concat, made]
    rfl
  · refine ⟨⟨sound, (ops ++ [.recordCut thread]) ++ [.publish], ?_⟩, rfl⟩
    rw [ReprCache.after_concat, ReprCache.after_concat, made]
    rfl

/-- Registering under a capability changes nothing, or adds one listener. -/
theorem listen_listeners (kernel : ListeningKernel π) (spec : ListenSpec) (capability : Capability) :
    kernel.perform (.listen spec capability) = kernel ∨
      ∃ hearing, kernel.perform (.listen spec capability) =
        { kernel with listeners := kernel.listeners.register spec hearing } := by
  rw [perform, listen]
  split
  · rename_i opened granted
    split at granted
    · cases granted
      exact .inr ⟨_, rfl⟩
    · cases granted
  · exact .inl rfl

/-- How many cuts one step makes. -/
def cutsIn : ListenStep → Nat
  | .cut _ => 1
  | _ => 0

/-- One step keeps it, and counts its cut. -/
theorem Reached.step {policy : π} {kernel : ListeningKernel π} (reached : Reached policy kernel)
    (step : ListenStep) :
    Reached policy (kernel.perform step) ∧
      (kernel.perform step).cache.state.seq = kernel.cache.state.seq + cutsIn step := by
  cases step with
  | listen spec capability =>
    rcases kernel.listen_listeners spec capability with same | ⟨hearing, opened⟩
    · rw [same]
      exact ⟨reached, rfl⟩
    · rw [opened]
      exact ⟨⟨reached.listeners.register spec hearing, reached.cache⟩, rfl⟩
  | forget number => exact ⟨⟨reached.listeners.forget number, reached.cache⟩, rfl⟩
  | cut thread => exact reached.cut thread
  | drain number =>
    rw [perform]
    cases lives : kernel.listeners.upgrade number with
    | none => exact ⟨reached, rfl⟩
    | some listener => exact ⟨⟨reached.listeners.update lives _, reached.cache⟩, rfl⟩
  | poll number waker =>
    rw [perform]
    cases lives : kernel.listeners.upgrade number with
    | none => exact ⟨reached, rfl⟩
    | some listener => exact ⟨⟨reached.listeners.update lives _, reached.cache⟩, rfl⟩
  | work op uncut =>
    obtain ⟨ops, made⟩ := reached.cache
    refine ⟨⟨reached.listeners, ops ++ [op], ?_⟩, ?_⟩
    · rw [ReprCache.after_concat, ← made]
      rfl
    · show (kernel.cache.perform op).1.state.seq = _
      rw [made]
      exact seq_of_uncut policy ops op uncut

/-- Every run reaches such a kernel. -/
theorem reached_after (policy : π) (steps : List ListenStep) :
    Reached policy (after policy steps) := by
  induction steps using List.reverseRecOn with
  | nil => exact ⟨⟨rfl, List.nodup_nil, nofun, nofun⟩, [], rfl⟩
  | append_singleton steps step ih =>
    rw [after_concat]
    exact (ih.step step).1

/-- The event a step owes a listener: a cut that it wants and may hear. -/
def owedBy (kernel : ListeningKernel π) (number : Nat) : ListenStep → Option CutEvent
  | .cut thread =>
    (kernel.listeners.upgrade number).bind fun listener =>
      listener.event thread (kernel.cache.cutWith thread).2.1 (kernel.cache.cutWith thread).2.2
  | _ => none

omit [CachePolicy π] [IriSyntax] [RequestHash] in
/-- What a cut may show: a dependent for each resident entry that hangs from its thread, under
the capability the entry was computed under. -/
theorem dependent_iff (cache : ReprCache π) (thread : Thread) (capability : UInt64) :
    (∃ dependent ∈ (cache.cutWith thread).2.2, dependent.capability = capability) ↔
      ∃ entry ∈ cache.state.entries.entries,
        entry.1.capability = capability ∧ ∃ edge ∈ entry.2.edges, edge.1 = thread := by
  show (∃ dependent ∈ cache.state.entries.entries.filterMap _, _) ↔ _
  simp only [List.mem_filterMap, Option.map_eq_some_iff]
  constructor
  · rintro ⟨_, ⟨entry, inside, edge, found, rfl⟩, rfl⟩
    have on := List.find?_some found
    exact ⟨entry, inside, rfl, edge, List.mem_of_find?_eq_some found, beq_iff_eq.mp on⟩
  · rintro ⟨entry, inside, rfl, edge, hangs, on⟩
    have found : (entry.2.edges.find? fun edge => edge.1 == thread).isSome = true :=
      List.find?_isSome.mpr ⟨edge, hangs, beq_iff_eq.mpr on⟩
    obtain ⟨pinned, found⟩ := Option.isSome_iff_exists.mp found
    exact ⟨_, ⟨entry, inside, pinned, found, rfl⟩, rfl⟩

omit [CachePolicy π] [IriSyntax] [RequestHash] in
/-- A cut is owed to a listener that lives and wants its thread: to one registered under the
root always, to another where some entry it computed itself hangs from the thread. -/
theorem owed_by_iff (kernel : ListeningKernel π) (number : Nat) (thread : Thread) :
    (kernel.owedBy number (.cut thread)).isSome = true ↔
      ∃ listener, kernel.listeners.upgrade number = some listener ∧
        listener.spec.matches thread = true ∧
        (listener.hearing = .everything ∨
          ∃ entry ∈ kernel.cache.state.entries.entries,
            listener.hearing = .ownReads entry.1.capability ∧
              ∃ edge ∈ entry.2.edges, edge.1 = thread) := by
  rw [owedBy]
  cases kernel.listeners.upgrade number with
  | none =>
    refine iff_of_false Bool.false_ne_true ?_
    rintro ⟨_, ⟨⟩, _⟩
  | some listener =>
    rw [Option.bind_some, CutListener.event_iff]
    constructor
    · rintro ⟨wanted, heard⟩
      refine ⟨listener, rfl, wanted, heard.imp_right ?_⟩
      rintro ⟨dependent, shown, own⟩
      obtain ⟨entry, inside, same, hangs⟩ := (dependent_iff _ _ _).mp ⟨dependent, shown, rfl⟩
      exact ⟨entry, inside, same ▸ own, hangs⟩
    · rintro ⟨_, ⟨⟩, wanted, heard⟩
      refine ⟨wanted, heard.imp_right ?_⟩
      rintro ⟨entry, inside, own, hangs⟩
      obtain ⟨dependent, shown, same⟩ := (dependent_iff _ _ _).mpr ⟨entry, inside, rfl, hangs⟩
      exact ⟨dependent, shown, same ▸ own⟩

omit [CachePolicy π] in
/-- A registration is owed, from then on, the cuts that its spec wants and its capability may
hear. -/
theorem registered_owed_iff (kernel registered : ListeningKernel π) (spec : ListenSpec)
    (capability : Capability) (number : Nat)
    (granted : kernel.listen spec capability = .ok (registered, number)) (thread : Thread) :
    (registered.owedBy number (.cut thread)).isSome = true ↔
      spec.matches thread = true ∧
        (capability.isRoot = true ∨
          ∃ entry ∈ kernel.cache.state.entries.entries,
            entry.1.capability = RequestHash.capabilityKey capability ∧
              ∃ edge ∈ entry.2.edges, edge.1 = thread) := by
  rw [owed_by_iff]
  rw [listen] at granted
  split at granted
  · rw [Except.ok.injEq, Prod.mk.injEq] at granted
    obtain ⟨rfl, rfl⟩ := granted
    have lives := Listeners.upgrade_register kernel.listeners spec
      (if capability.isRoot then .everything else .ownReads (RequestHash.capabilityKey capability))
      kernel.listeners.shared.length
    rw [if_pos rfl] at lives
    simp only [lives, Option.some.injEq, exists_eq_left']
    refine and_congr_right fun _ => ?_
    split
    · rename_i root
      exact iff_of_true (.inl rfl) (.inl root)
    · rename_i limited
      simp only [reduceCtorEq, Hearing.ownReads.injEq, false_or, limited, Bool.false_eq_true]
      exact exists_congr fun entry => and_congr_right fun _ => and_congr_left fun _ => eq_comm
  · cases granted

/-- All that some steps owe it, in order. -/
def owed (number : Nat) : ListeningKernel π → List ListenStep → List CutEvent
  | _, [] => []
  | kernel, step :: steps =>
    (kernel.owedBy number step).toList ++ owed number (kernel.perform step) steps

/-- What one step more is owed comes last. -/
theorem owed_concat (number : Nat) (kernel : ListeningKernel π) (steps : List ListenStep)
    (step : ListenStep) :
    owed number kernel (steps ++ [step]) =
      owed number kernel steps ++ ((steps.foldl perform kernel).owedBy number step).toList := by
  induction steps generalizing kernel with
  | nil => simp [owed]
  | cons first steps ih => rw [List.cons_append, owed, ih, owed, List.append_assoc, List.foldl_cons]

/-- Whether a step neither takes a listener's queue nor drops it. -/
def Quiet (number : Nat) : ListenStep → Prop
  | .forget other | .drain other | .poll other _ => other ≠ number
  | _ => True

/-- A listener's batch is the first so many of some events, and the number of the rest. -/
def Filled (listener : CutListener) (events : List CutEvent) : Prop :=
  listener.batch = ⟨events.take listener.spec.capacity, events.length - listener.spec.capacity⟩

omit [IriSyntax] [RequestHash] in
/-- One more event it is told of. -/
theorem Filled.hear {listener : CutListener} {events : List CutEvent}
    (filled : Filled listener events) (thread : Thread) (sequence : Nat)
    (dependents : List Dependent) :
    Filled (listener.hear thread sequence dependents).1
      (events ++ (listener.event thread sequence dependents).toList) := by
  rw [CutListener.hear, CutListener.event]
  split
  · dsimp only
    split
    · rw [Filled, CutListener.batch, CutBatch.mk.injEq] at filled ⊢
      obtain ⟨first, rest⟩ := filled
      have length := congrArg List.length first
      rw [List.length_take] at length
      dsimp only
      rw [Option.toList_some, List.length_append, List.length_singleton, List.take_append]
      split
      · rename_i full
        have over_ : listener.spec.capacity - events.length = 0 := by omega
        rw [over_, List.take_zero, List.append_nil]
        refine ⟨first, ?_⟩
        show listener.queue.dropped + 1 = _
        omega
      · rename_i room
        have short : events.length < listener.spec.capacity := by omega
        refine ⟨?_, ?_⟩
        · dsimp only
          rw [first, List.take_of_length_le short.le,
            List.take_of_length_le (by rw [List.length_singleton]; omega)]
        · show listener.queue.dropped = _
          omega
    · rw [Option.toList_none, List.append_nil]
      exact filled
  · rw [Option.toList_none, List.append_nil]
    exact filled

/-- What one quiet step leaves of a listener. -/
theorem Reached.listener {policy : π} {kernel : ListeningKernel π} (reached : Reached policy kernel)
    {number : Nat} {listener : CutListener}
    (lives : kernel.listeners.upgrade number = some listener) {events : List CutEvent}
    (filled : Filled listener events) (step : ListenStep) (quiet : Quiet number step) :
    ∃ later, (kernel.perform step).listeners.upgrade number = some later ∧
      later.spec = listener.spec ∧
      Filled later (events ++ (kernel.owedBy number step).toList) := by
  have unchanged (owes : kernel.owedBy number step = none)
      (same : (kernel.perform step).listeners.upgrade number = some listener) :
      ∃ later, (kernel.perform step).listeners.upgrade number = some later ∧
        later.spec = listener.spec ∧
        Filled later (events ++ (kernel.owedBy number step).toList) := by
    rw [owes, Option.toList_none, List.append_nil]
    exact ⟨listener, same, rfl, filled⟩
  cases step with
  | listen spec capability =>
    apply unchanged rfl
    rcases kernel.listen_listeners spec capability with same | ⟨hearing, opened⟩
    · rw [same]
      exact lives
    · rw [opened]
      have old := (Listeners.upgrade_lt lives).ne
      exact (Listeners.upgrade_register _ _ _ _).trans ((if_neg old).trans lives)
  | forget other =>
    apply unchanged rfl
    show (kernel.listeners.forget other).upgrade number = some listener
    rw [Listeners.forget]
    cases there : kernel.listeners.upgrade other with
    | none => exact lives
    | some found => exact (Listeners.upgrade_update_beside there (Ne.symm quiet)).trans lives
  | cut thread =>
    obtain ⟨sound, same, wanted⟩ := reached.listeners.interested thread
    have owes : kernel.owedBy number (.cut thread) =
        listener.event thread (kernel.cache.cutWith thread).2.1
          (kernel.cache.cutWith thread).2.2 := by
      rw [owedBy, lives, Option.bind_some]
    rw [owes, perform, ListeningKernel.cut]
    dsimp only
    split
    · refine ⟨_, ?_, ?_, filled.hear thread _ _⟩
      · dsimp only
        rw [(sound.deliver thread _ _).2, same, lives, Option.map_some]
      · rw [CutListener.hear]
        split
        · dsimp only
          split <;> rfl
        · rfl
    · rename_i unwanted
      have deaf : ¬ listener.spec.matches thread = true := fun wants =>
        unwanted (wanted.mpr ⟨number, listener, lives, wants⟩)
      refine ⟨listener, (same number).trans lives, rfl, ?_⟩
      rw [CutListener.event, if_neg deaf, Option.toList_none, List.append_nil]
      exact filled
  | drain other =>
    apply unchanged rfl
    rw [perform]
    cases there : kernel.listeners.upgrade other with
    | none => exact lives
    | some found => exact (Listeners.upgrade_update_beside there (Ne.symm quiet)).trans lives
  | poll other waker =>
    apply unchanged rfl
    rw [perform]
    cases there : kernel.listeners.upgrade other with
    | none => exact lives
    | some found => exact (Listeners.upgrade_update_beside there (Ne.symm quiet)).trans lives
  | work op uncut => exact unchanged rfl lives

/-- What some quiet steps leave of it, from an empty queue. -/
theorem Reached.window {policy : π} {kernel : ListeningKernel π} (reached : Reached policy kernel)
    {number : Nat} {listener : CutListener}
    (lives : kernel.listeners.upgrade number = some listener) (empty : listener.batch = {})
    (steps : List ListenStep) (quiet : ∀ step ∈ steps, Quiet number step) :
    Reached policy (steps.foldl perform kernel) ∧
      ∃ later, (steps.foldl perform kernel).listeners.upgrade number = some later ∧
        later.spec = listener.spec ∧ Filled later (owed number kernel steps) := by
  induction steps using List.reverseRecOn with
  | nil =>
    refine ⟨reached, listener, lives, rfl, ?_⟩
    rw [Filled, empty, owed, List.take_nil, List.length_nil, Nat.zero_sub]
  | append_singleton steps step ih =>
    obtain ⟨still, later, stands, spec, filled⟩ :=
      ih fun one inside => quiet one (List.mem_append_left _ inside)
    rw [List.foldl_concat, owed_concat]
    obtain ⟨last, there, same, filled⟩ := still.listener stands filled step
      (quiet step (List.mem_append_right _ List.mem_cons_self))
    exact ⟨(still.step step).1, last, there, same.trans spec, filled⟩

/-- What is owed comes in the order of its numbers, each after the window opened. -/
theorem Reached.owed_ordered {policy : π} {kernel : ListeningKernel π}
    (reached : Reached policy kernel) (number : Nat) (steps : List ListenStep) :
    (owed number kernel steps).Pairwise (fun earlier later => earlier.sequence < later.sequence) ∧
      ∀ event ∈ owed number kernel steps, kernel.cache.state.seq < event.sequence := by
  induction steps generalizing kernel with
  | nil => exact ⟨List.Pairwise.nil, nofun⟩
  | cons step steps ih =>
    obtain ⟨still, seq⟩ := reached.step step
    obtain ⟨ordered, after⟩ := ih still
    have numbered (event : CutEvent) (owes : event ∈ (kernel.owedBy number step).toList) :
        event.sequence = kernel.cache.state.seq + 1 ∧ cutsIn step = 1 := by
      cases step with
      | cut thread =>
        rw [Option.mem_toList, owedBy] at owes
        obtain ⟨listener, _, owes⟩ := Option.bind_eq_some_iff.mp owes
        rw [CutListener.event] at owes
        split at owes
        · dsimp only at owes
          split at owes
          · cases owes
            exact ⟨rfl, rfl⟩
          · cases owes
        · cases owes
      | listen spec capability => cases owes
      | forget other => cases owes
      | drain other => cases owes
      | poll other waker => cases owes
      | work op uncut => cases owes
    rw [owed]
    refine ⟨List.pairwise_append.mpr ⟨?_, ordered, fun first here second there => ?_⟩,
      fun event inside => ?_⟩
    · cases kernel.owedBy number step with
      | none => exact List.Pairwise.nil
      | some event => exact List.pairwise_singleton _ _
    · obtain ⟨is, cuts⟩ := numbered first here
      have late := after second there
      rw [seq, cuts] at late
      rw [is]
      exact late
    · rcases List.mem_append.mp inside with here | there
      · rw [(numbered event here).1]
        exact Nat.lt_succ_self _
      · exact (Nat.le_add_right _ _).trans_lt (seq ▸ after event there)

/-- Whether a step opens a window of a listener: it registers it, or its host takes its queue. -/
def Opens (kernel : ListeningKernel π) (number : Nat) (step : ListenStep) : Prop :=
  match step with
  | .listen spec capability =>
    number = kernel.listeners.shared.length ∧ (kernel.listen spec capability).isOk = true
  | .drain other | .poll other _ =>
    other = number ∧ (kernel.listeners.upgrade number).isSome = true
  | _ => False

omit [IriSyntax] [RequestHash] in
/-- A poll takes what there is and leaves nothing, or finds nothing and parks. -/
theorem poll_batch (listener : CutListener) (waker : Waker) :
    (listener.poll waker).1.batch = {} ∧ (listener.poll waker).1.alive = listener.alive ∧
      ((listener.poll waker).2 = none ∨ (listener.poll waker).2 = some listener.batch) := by
  rw [CutListener.poll]
  split
  · rename_i empty
    rw [Bool.and_eq_true, List.isEmpty_iff, beq_iff_eq] at empty
    refine ⟨?_, rfl, .inl rfl⟩
    rw [CutListener.batch, empty.1, empty.2]
  · exact ⟨rfl, rfl, .inr rfl⟩

/-- After it the queue is empty. -/
theorem opened (kernel : ListeningKernel π) (number : Nat) (step : ListenStep)
    (opens : kernel.Opens number step) :
    ∃ listener, (kernel.perform step).listeners.upgrade number = some listener ∧
      listener.batch = {} := by
  cases step with
  | listen spec capability =>
    obtain ⟨rfl, granted⟩ := opens
    rw [perform]
    rw [listen] at granted ⊢
    split at granted
    · rename_i allowed
      rw [if_pos allowed]
      refine ⟨_, (Listeners.upgrade_register _ _ _ _).trans (if_pos rfl), rfl⟩
    · cases granted
  | drain other =>
    obtain ⟨rfl, lives⟩ := opens
    obtain ⟨listener, lives⟩ := Option.isSome_iff_exists.mp lives
    have alive := Listeners.upgrade_alive lives
    rw [perform, lives]
    dsimp only
    rw [Listeners.upgrade_update _ lives, if_pos rfl, Option.filter_some]
    exact ⟨listener.drain.1, if_pos alive, rfl⟩
  | poll other waker =>
    obtain ⟨rfl, lives⟩ := opens
    obtain ⟨listener, lives⟩ := Option.isSome_iff_exists.mp lives
    have alive := Listeners.upgrade_alive lives
    obtain ⟨empty, same, _⟩ := poll_batch listener waker
    rw [perform, lives]
    dsimp only
    rw [Listeners.upgrade_update _ lives, if_pos rfl, Option.filter_some]
    exact ⟨(listener.poll waker).1, if_pos (same.trans alive), empty⟩
  | forget other => cases opens
  | cut thread => cases opens
  | work op uncut => cases opens

omit [CachePolicy π] [IriSyntax] [RequestHash] in
/-- What is taken is what the listener holds. -/
theorem taken_batch (kernel : ListeningKernel π) (number : Nat) (step : ListenStep)
    (batch : CutBatch) (took : kernel.taken number step = some batch) :
    ∃ listener, kernel.listeners.upgrade number = some listener ∧ batch = listener.batch := by
  cases step with
  | drain other =>
    rw [taken] at took
    split at took
    · obtain ⟨listener, lives, rfl⟩ := Option.map_eq_some_iff.mp took
      exact ⟨listener, lives, rfl⟩
    · cases took
  | poll other waker =>
    rw [taken] at took
    split at took
    · obtain ⟨listener, lives, polled⟩ := Option.bind_eq_some_iff.mp took
      refine ⟨listener, lives, ?_⟩
      rcases (poll_batch listener waker).2.2 with pending | ready
      · rw [pending] at polled
        cases polled
      · rw [ready] at polled
        exact (Option.some.inj polled).symm
    · cases took
  | listen spec capability => cases took
  | forget other => cases took
  | cut thread => cases took
  | work op uncut => cases took

/-- A batch is the first of what the window owed, up to the listener's capacity, and the number
of the rest; and what was owed comes in the order of its numbers, all past the window's start. -/
theorem batch_of_window (policy : π) (early : List ListenStep) (opening : ListenStep)
    (window : List ListenStep) (closing : ListenStep) (number : Nat) (batch : CutBatch)
    (opens : (after policy early).Opens number opening)
    (quiet : ∀ step ∈ window, Quiet number step)
    (took : (after policy (early ++ [opening] ++ window)).taken number closing = some batch) :
    ∃ listener,
      (after policy (early ++ [opening] ++ window)).listeners.upgrade number = some listener ∧
      batch.events = (owed number (after policy (early ++ [opening])) window).take
        listener.spec.capacity ∧
      batch.dropped = (owed number (after policy (early ++ [opening])) window).length -
        listener.spec.capacity ∧
      (owed number (after policy (early ++ [opening])) window).Pairwise
        (fun earlier later => earlier.sequence < later.sequence) ∧
      ∀ event ∈ owed number (after policy (early ++ [opening])) window,
        (after policy (early ++ [opening])).cache.state.seq < event.sequence := by
  obtain ⟨first, lives, empty⟩ := opened _ number opening opens
  rw [← after_concat] at lives
  have reached := reached_after policy (early ++ [opening])
  obtain ⟨_, later, stands, _, filled⟩ := reached.window lives empty window quiet
  have whole : after policy (early ++ [opening] ++ window) =
      window.foldl perform (after policy (early ++ [opening])) := by
    rw [after, List.foldl_append]
    rfl
  obtain ⟨listener, there, rfl⟩ := taken_batch _ number closing batch took
  rw [whole] at there ⊢
  rw [stands] at there
  cases there
  have ordered := reached.owed_ordered number window
  exact ⟨later, stands, congrArg CutBatch.events filled, congrArg CutBatch.dropped filled,
    ordered.1, ordered.2⟩

end ListeningKernel

/-- Entries of a target named twice before its place was taken are counted one short, and of no
other: the count is whole exactly when there is none such. -/
theorem named_whole_iff (targets : List Text) :
    (nameTheFirst targets).2 + targets.countP (fun target => target ∈ (nameTheFirst targets).1) =
        targets.length ↔ Naming.CountedOnce invalidatedNamed targets := by
  have counted : targets.countP (fun target => target ∈ (nameTheFirst targets).1) =
      Naming.named targets (Naming.visitAll invalidatedNamed targets).kept := by
    apply List.countP_congr
    intro target _
    rw [decide_eq_true_iff, decide_eq_true_iff]
    rfl
  rw [← (Naming.accounts_all (by decide) targets).exact_iff, counted, Nat.add_comm]
  rfl

/-- What is named does not depend on the order; what is counted does not exactly when no target
that is left out comes twice. -/
theorem named_alike_iff (targets : List Text) :
    (∀ others : List Text, others.Perm targets → nameTheFirst others = nameTheFirst targets) ↔
      Naming.OutOnce invalidatedNamed targets := by
  rw [← Naming.same_told_iff (by decide) targets]
  refine forall_congr' fun others => imp_congr_right fun _ => ?_
  rw [nameTheFirst, nameTheFirst]
  constructor
  · intro same
    rw [Prod.mk.injEq] at same
    have kept := OrderedSet.ext same.1
    cases this : Naming.visitAll invalidatedNamed others
    cases that : Naming.visitAll invalidatedNamed targets
    rw [this, that] at same kept
    rw [Naming.mk.injEq]
    exact ⟨kept, same.2⟩
  · intro same
    rw [same]

section Told

variable [CachePolicy π] [IriSyntax] [RequestHash]

open ListeningKernel in
/-- Between two times its queue is taken a listener gets the first of the cuts it was owed, in
order, and the number of the rest. An event names the smallest distinct targets; with its count
they are all entries exactly when none that is left out came twice before so many smaller ones,
and it is the same in every order exactly when none that is left out comes twice. -/
theorem window_told_names_counted (policy : π) (early : List ListenStep) (opening : ListenStep)
    (window : List ListenStep) (closing : ListenStep) (number : Nat) (batch : CutBatch)
    (opens : (after policy early).Opens number opening)
    (quiet : ∀ step ∈ window, ListeningKernel.Quiet number step)
    (took : (after policy (early ++ [opening] ++ window)).taken number closing = some batch)
    (targets : List Text) :
    (∃ listener,
      (after policy (early ++ [opening] ++ window)).listeners.upgrade number = some listener ∧
      batch.events = (owed number (after policy (early ++ [opening])) window).take
        listener.spec.capacity ∧
      batch.dropped = (owed number (after policy (early ++ [opening])) window).length -
        listener.spec.capacity ∧
      (owed number (after policy (early ++ [opening])) window).Pairwise
        (fun earlier later => earlier.sequence < later.sequence) ∧
      ∀ event ∈ owed number (after policy (early ++ [opening])) window,
        (after policy (early ++ [opening])).cache.state.seq < event.sequence) ∧
      (nameTheFirst targets).1 = (OrderedSet.ofList targets).items.take invalidatedNamed ∧
      ((nameTheFirst targets).2 +
          targets.countP (fun target => target ∈ (nameTheFirst targets).1) = targets.length ↔
        Naming.CountedOnce invalidatedNamed targets) ∧
      ((∀ others : List Text, others.Perm targets →
          nameTheFirst others = nameTheFirst targets) ↔
        Naming.OutOnce invalidatedNamed targets) :=
  ⟨batch_of_window policy early opening window closing number batch opens quiet took,
    Naming.kept_smallest (by decide) targets, named_whole_iff targets, named_alike_iff targets⟩

end Told

namespace CutWindowExample

local instance anyIri : IriSyntax := ⟨fun _ => true, fun _ => []⟩

local instance zeroHash : RequestHash := ⟨fun _ => ⟨Vector.replicate 32 0⟩, fun _ => 0⟩

def policy : ShippedPolicy := .simple (.lru ⟨16, 1024⟩)

def cell : Thread := "urn:cell".toList

/-- One place in the queue, and two cuts. -/
def spec : ListenSpec := (ListenSpec.named {} cell).holding 1

/-- Two cuts of a thread that a listener with one place wants. -/
def window : List ListenStep := [.cut cell, .cut cell]

/-- The drain takes the first as an event, and the second as a count of one. -/
theorem one_told_one_dropped :
    (ListeningKernel.after policy ([] ++ [.listen spec .root] ++ window)).taken 0 (.drain 0) =
        some ⟨[⟨cell, 1, [], 0⟩], 1⟩ ∧
      ∃ listener, (ListeningKernel.after policy ([] ++ [.listen spec .root] ++
          window)).listeners.upgrade 0 = some listener ∧
        [⟨cell, 1, [], 0⟩] = (ListeningKernel.owed 0
          (ListeningKernel.after policy ([] ++ [.listen spec .root])) window).take
            listener.spec.capacity ∧
        1 = (ListeningKernel.owed 0
          (ListeningKernel.after policy ([] ++ [.listen spec .root])) window).length -
            listener.spec.capacity := by
  have took : (ListeningKernel.after policy ([] ++ [.listen spec .root] ++ window)).taken 0
      (.drain 0) = some ⟨[⟨cell, 1, [], 0⟩], 1⟩ := by decide
  obtain ⟨⟨listener, lives, first, rest, _⟩, _⟩ := window_told_names_counted policy []
    (.listen spec .root) window (.drain 0) 0 ⟨[⟨cell, 1, [], 0⟩], 1⟩ ⟨rfl, rfl⟩
    (by simp [ListeningKernel.Quiet, window]) took []
  exact ⟨took, listener, lives, first, rest⟩

/-- Sixty-four targets, all smaller than one that was cached under two keys and comes first. -/
def targets : List Text :=
  "urn:x:b".toList :: "urn:x:b".toList ::
    (List.range 64).map fun count => "urn:x:".toList ++ List.replicate count 'a'

/-- Of sixty-six entries sixty-four are named and one is counted. -/
theorem entry_uncounted : ¬ ∀ targets : List Text,
    (nameTheFirst targets).2 + targets.countP (fun target => target ∈ (nameTheFirst targets).1) =
      targets.length := by
  intro every
  have once := (named_whole_iff targets).mp (every targets)
  have twice := once ["urn:x:b".toList, "urn:x:b".toList] "urn:x:b".toList ⟨_, rfl⟩ ?_ (by decide)
  · revert twice
    decide
  · rw [Naming.rank]
    have smaller : ∀ count ∈ Finset.range 64,
        "urn:x:".toList ++ List.replicate count 'a' < "urn:x:b".toList := by decide
    have apart : Set.InjOn (fun count => "urn:x:".toList ++ List.replicate count 'a')
        (Finset.range 64) := by
      intro first _ second _ same
      have tails := List.append_cancel_left same
      simpa using congrArg List.length tails
    calc invalidatedNamed = ((Finset.range 64).image fun count =>
          "urn:x:".toList ++ List.replicate count 'a').card := by
          rw [Finset.card_image_of_injOn apart, Finset.card_range]
          rfl
      _ ≤ _ := Finset.card_le_card fun target inside => by
          obtain ⟨count, within, rfl⟩ := Finset.mem_image.mp inside
          simp only [Finset.mem_filter, List.mem_toFinset]
          refine ⟨?_, smaller count within⟩
          exact List.mem_cons_of_mem _ (List.mem_cons_of_mem _
            (List.mem_map_of_mem (List.mem_range.mpr (Finset.mem_range.mp within))))

end CutWindowExample

end Ikigai
