import Ikigai.ContentStore

/-!
# Runs of the content store

Puts, clones and drops in any order, by any parties. What a run keeps: an entry is held exactly
while some handle for it lives, with a count for every holder; and the total is the sum of the
sizes, unless it once passed what a word holds.
-/

namespace Ikigai

namespace ContentStore

/-- What is done to the store. A handle is named by the step that made it. -/
inductive StoreStep where
  | put (bytes : List UInt8)
  | putFor (capability : Capability) (bytes : List UInt8)
  | putReplay (replay : Replay)
  | putReplayFor (capability : Capability) (replay : Replay)
  | cloneHandle (made : Nat)
  | dropHandle (made : Nat)
  | idle

/-- The store, the handle each step made while that lives, and the size the first live hold of an
id stated. -/
structure World where
  store : State := {}
  handles : List (Option ContentHandle) := []
  stated : ContentId → Nat := fun _ => 0

namespace World

/-- How many of some handles an id has for a holder. -/
def numberIn (handles : List (Option ContentHandle)) (id : ContentId) (holder : Holder) : Nat :=
  handles.count (some ⟨id, holder⟩)

/-- How many live handles an id has for a holder. -/
def number (world : World) : ContentId → Holder → Nat := numberIn world.handles

/-- A handle that is dropped counts for nobody. -/
theorem number_none (handles : List (Option ContentHandle)) :
    numberIn (handles ++ [none]) = numberIn handles := by
  funext id holder
  rw [numberIn, List.count_append]
  rfl

/-- One more handle is one more of its id and holder. -/
theorem number_more (handles : List (Option ContentHandle)) (handle : ContentHandle)
    (id : ContentId) :
    numberIn (handles ++ [some handle]) id =
      if id = handle.id then Function.update (numberIn handles id) handle.holder
        (numberIn handles id handle.holder + 1) else numberIn handles id := by
  obtain ⟨id', holder'⟩ := handle
  funext holder
  rw [numberIn, List.count_append, List.count_singleton]
  by_cases same : id = id'
  · subst same
    rw [if_pos rfl]
    by_cases own : holder = holder'
    · subst own
      simp [numberIn]
    · rw [Function.update_of_ne own]
      simp [numberIn, Ne.symm own]
  · rw [if_neg same]
    simp [numberIn, Ne.symm same]

/-- A handle dropped is one fewer of its id and holder. -/
theorem number_fewer (handles : List (Option ContentHandle)) (handle : ContentHandle) (made : Nat)
    (here : (handles[made]?).join = some handle) (id : ContentId) :
    numberIn (handles.set made none) id =
      if id = handle.id then Function.update (numberIn handles id) handle.holder
        (numberIn handles id handle.holder - 1) else numberIn handles id := by
  obtain ⟨id', holder'⟩ := handle
  obtain ⟨inside, at_⟩ := List.getElem?_eq_some_iff.mp (Option.join_eq_some_iff.mp here)
  funext holder
  rw [numberIn, List.count_set inside, at_]
  by_cases same : id = id'
  · subst same
    rw [if_pos rfl]
    by_cases own : holder = holder'
    · subst own
      simp [numberIn]
    · rw [Function.update_of_ne own]
      simp [numberIn, Ne.symm own]
  · rw [if_neg same]
    simp [numberIn, Ne.symm same]

/-- Whether some handle for an id lives. -/
def lives (world : World) (id : ContentId) : Bool :=
  world.handles.any fun slot => slot.any fun handle => handle.id = id

/-- A content lives exactly when somebody holds it. -/
theorem lives_iff (world : World) (id : ContentId) :
    world.lives id = true ↔ ∃ holder, 0 < world.number id holder := by
  rw [lives, List.any_eq_true]
  constructor
  · rintro ⟨slot, inside, same⟩
    cases slot with
    | none => cases same
    | some handle =>
      obtain ⟨other, holder⟩ := handle
      cases of_decide_eq_true same
      exact ⟨holder, List.count_pos_iff.mpr inside⟩
  · rintro ⟨holder, some_⟩
    exact ⟨_, List.count_pos_iff.mp some_, by simp⟩

/-- The handle a step made, while it lives. -/
def handleOf (world : World) (made : Nat) : Option ContentHandle := (world.handles[made]?).join

/-- The sizes of all entries, together. -/
def sizes (entries : KeyedMap ContentId Entry) : Nat := (entries.values.map Entry.size).sum

/-- What is held is an entry's size and the rest. -/
theorem sizes_erase {entries : KeyedMap ContentId Entry} {id : ContentId} {entry : Entry}
    (held : entries.lookup id = some entry) :
    sizes entries = entry.size + sizes (entries.erase id) := by
  have split := (KeyedMap.entries_perm_erase entries id entry held).map
    fun entry => entry.2.size
  rw [sizes, sizes, KeyedMap.values, KeyedMap.values, List.map_map, List.map_map]
  exact split.sum_eq

/-- An entry put in adds its size to the rest. -/
theorem sizes_insert (entries : KeyedMap ContentId Entry) (id : ContentId) (entry : Entry) :
    sizes (entries.insert id entry) = entry.size + sizes (entries.erase id) := rfl

/-- What holds of one id: no handle for it lives and it is not held; or it is held, with a count
for every holder, a body that can be read again and the size that was stated. -/
inductive KeptAt : Option Entry → (Holder → Nat) → Nat → Prop where
  | gone (number : Holder → Nat) (stated : Nat) (unheld : ∀ holder, number holder = 0) :
      KeptAt none number stated
  | held (entry : Entry) (number : Holder → Nat) (counted : entry.holders.Tells number)
      (alive : ∃ holder, 0 < number holder) (again : entry.body.share = some entry.body) :
      KeptAt (some entry) number entry.size

/-- Every id is kept so, and the bound is met. -/
structure Kept (maxBytes : UInt64) (world : World) : Prop where
  every : ∀ id, KeptAt (world.store.entries.lookup id) (world.number id) (world.stated id)
  bounded : world.store.held ≤ maxBytes.toNat

/-- What the store keeps is what lives. -/
theorem Kept.held_iff {maxBytes : UInt64} {world : World} (kept : world.Kept maxBytes)
    (id : ContentId) :
    (world.store.entries.lookup id).isSome = true ↔ world.lives id = true := by
  rw [lives_iff]
  have own := kept.every id
  generalize world.store.entries.lookup id = slot at own
  generalize world.number id = number at own
  generalize world.stated id = stated at own
  cases own with
  | gone _ _ unheld =>
    constructor
    · intro held
      cases held
    · rintro ⟨holder, some_⟩
      exact absurd (unheld holder) (Nat.ne_zero_of_lt some_)
  | held entry _ counted alive again => exact ⟨fun _ => alive, fun _ => rfl⟩

/-- An entry that is kept tells who holds it and how often, and its body can be shared. -/
theorem KeptAt.entry {number : Holder → Nat} {stated : Nat} {entry : Entry}
    (kept : KeptAt (some entry) number stated) :
    entry.holders.Tells number ∧ (∃ holder, 0 < number holder) ∧
      entry.body.share = some entry.body ∧ stated = entry.size := by
  cases kept with
  | held _ _ counted alive again => exact ⟨counted, alive, again, rfl⟩

/-- What is not there nobody holds. -/
theorem KeptAt.unheld {number : Holder → Nat} {stated : Nat}
    (kept : KeptAt none number stated) : ∀ holder, number holder = 0 := by
  cases kept with
  | gone _ _ unheld => exact unheld

/-- One handle more on an entry. -/
theorem KeptAt.more {number : Holder → Nat} {stated : Nat} {entry : Entry}
    (kept : KeptAt (some entry) number stated) (holder : Holder) :
    KeptAt (some { entry with holders := entry.holders.hold holder })
      (Function.update number holder (number holder + 1)) stated := by
  obtain ⟨counted, _, again, rfl⟩ := kept.entry
  refine .held { entry with holders := entry.holders.hold holder } _ (counted.hold holder)
    ⟨holder, ?_⟩ again
  rw [Function.update_self]
  exact Nat.succ_pos _

/-- The first handle of an id. -/
theorem KeptAt.start {number : Holder → Nat} {stated : Nat} (kept : KeptAt none number stated)
    (holder : Holder) (body : Body) (size : Nat) (again : body.share = some body) :
    KeptAt (some ⟨body, size, HandleCounts.hold ∅ holder⟩)
      (Function.update number holder (number holder + 1)) size := by
  have zero : number = fun _ => 0 := funext kept.unheld
  subst zero
  refine .held ⟨body, size, HandleCounts.hold ∅ holder⟩ _ (HandleCounts.tells_empty.hold holder)
    ⟨holder, ?_⟩ again
  rw [Function.update_self]
  exact Nat.succ_pos _

/-- One handle fewer: the entry without it, or nothing where it was the last. -/
theorem KeptAt.fewer {number : Holder → Nat} {stated : Nat} {entry : Entry}
    (kept : KeptAt (some entry) number stated) (holder : Holder) :
    KeptAt (if (entry.holders.release holder).entries.isEmpty then none
        else some { entry with holders := entry.holders.release holder })
      (Function.update number holder (number holder - 1)) stated := by
  obtain ⟨counted, _, again, rfl⟩ := kept.entry
  have released := counted.release holder
  split
  · rename_i last
    exact .gone _ _ (released.empty_iff.mp last)
  · rename_i others
    refine .held { entry with holders := entry.holders.release holder } _ released ?_ again
    by_contra none
    refine others (released.empty_iff.mpr fun other => ?_)
    by_contra some_
    exact none ⟨other, Nat.pos_of_ne_zero some_⟩

/-- What a drop leaves under each id. -/
theorem drop_lookup (state : State) (handle : ContentHandle) (id : ContentId) (entry : Entry)
    (held : state.entries.lookup handle.id = some entry) :
    (state.dropHandle handle).entries.lookup id =
      if id = handle.id then
        if (entry.holders.release handle.holder).entries.isEmpty then none
        else some { entry with holders := entry.holders.release handle.holder }
      else state.entries.lookup id := by
  rw [State.dropHandle, held]
  dsimp only
  split
  · rw [KeyedMap.lookup_erase_eq]
  · rw [KeyedMap.lookup_insert_eq]

/-- Dropping a handle frees, if anything. -/
theorem drop_held_le (state : State) (handle : ContentHandle) :
    (state.dropHandle handle).held ≤ state.held := by
  rw [State.dropHandle]
  split
  · dsimp only
    split
    · exact Nat.sub_le _ _
    · exact le_rfl
  · exact le_rfl

/-- A handle that lives has an entry. -/
theorem Kept.entry_of_handle {maxBytes : UInt64} {world : World} (kept : world.Kept maxBytes)
    {handle : ContentHandle} {made : Nat} (here : world.handleOf made = some handle) :
    ∃ entry, world.store.entries.lookup handle.id = some entry := by
  apply Option.isSome_iff_exists.mp
  apply (kept.held_iff handle.id).mpr
  rw [lives, List.any_eq_true]
  have inside := List.mem_of_getElem? (Option.join_eq_some_iff.mp here)
  exact ⟨some handle, inside, by simp⟩

variable [ContentHash] [IriSyntax]

/-- Whom a put is for, and what it wants held; or why it is refused outright. -/
def wanting : StoreStep → Option (Holder × Except Error Wanted)
  | .put bytes => some (.root, .ok (wantedBytes bytes))
  | .putFor capability bytes => some (.ofCapability capability, .ok (wantedBytes bytes))
  | .putReplay replay => some (.root, wantedReplay replay)
  | .putReplayFor capability replay => some (.ofCapability capability, wantedReplay replay)
  | .cloneHandle _ | .dropHandle _ | .idle => none

/-- The size an id's first live hold stated, once a put of it was granted. -/
def firstStated (world : World) (wanted : Wanted) : ContentId → Nat :=
  if world.lives wanted.id then world.stated
  else Function.update world.stated wanted.id wanted.size.toNat

/-- What a put answered: its handle is the step's. -/
def answered (world : World) (step : StoreStep) (outcome : State × Except Error ContentHandle) :
    World where
  store := outcome.1
  handles := world.handles ++ [outcome.2.toOption]
  stated :=
    match wanting step, outcome.2 with
    | some (_, .ok wanted), .ok _ => world.firstStated wanted
    | _, _ => world.stated

/-- One step. -/
def perform (maxBytes : UInt64) (world : World) (step : StoreStep) : World :=
  match step with
  | .put bytes => world.answered step (world.store.put maxBytes bytes)
  | .putFor capability bytes => world.answered step (world.store.putFor maxBytes capability bytes)
  | .putReplay replay => world.answered step (world.store.putReplay maxBytes replay)
  | .putReplayFor capability replay =>
    world.answered step (world.store.putReplayFor maxBytes capability replay)
  | .cloneHandle made =>
    match world.handleOf made with
    | some handle =>
      { world with
        store := world.store.cloneHandle handle
        handles := world.handles ++ [some handle] }
    | none => { world with handles := world.handles ++ [none] }
  | .dropHandle made =>
    match world.handleOf made with
    | some handle =>
      { world with
        store := world.store.dropHandle handle
        handles := world.handles.set made none ++ [none] }
    | none => { world with handles := world.handles ++ [none] }
  | .idle => { world with handles := world.handles ++ [none] }

/-- Every put is a hold of what it wants, or is refused outright. -/
theorem perform_put (maxBytes : UInt64) (world : World) (step : StoreStep) (holder : Holder)
    (asked : Except Error Wanted) (put : wanting step = some (holder, asked)) :
    world.perform maxBytes step =
      world.answered step (world.store.holdWanted maxBytes holder asked) := by
  cases step with
  | put bytes =>
    cases put
    rfl
  | putFor capability bytes =>
    cases put
    rfl
  | putReplay replay =>
    cases put
    rfl
  | putReplayFor capability replay =>
    cases put
    rfl
  | cloneHandle made => cases put
  | dropHandle made => cases put
  | idle => cases put

/-- The world after some steps. -/
def after (maxBytes : UInt64) (steps : List StoreStep) : World :=
  steps.foldl (perform maxBytes) {}

/-- A world in which one more handle lives, and the store is another. -/
def more (world : World) (store : State) (handle : ContentHandle) : World :=
  { world with store := store, handles := world.handles ++ [some handle] }

/-- Everything a step can do: nothing, one more handle on an entry, a new entry, or one handle
fewer. -/
inductive Moved (maxBytes : UInt64) (world : World) (step : StoreStep) : World → Prop where
  | unchanged (room : ∀ holder wanted, wanting step = some (holder, .ok wanted) →
        world.store.entries.lookup wanted.id = none →
          maxBytes.toNat < saturatingAdd world.store.held wanted.size.toNat) :
      Moved maxBytes world step { world with handles := world.handles ++ [none] }
  | again (handle : ContentHandle) (entry : Entry) (stated : ContentId → Nat)
      (held : world.store.entries.lookup handle.id = some entry)
      (kept : world.lives handle.id = true → stated = world.stated)
      (asks : ∀ holder wanted, wanting step = some (holder, .ok wanted) → wanted.id = handle.id) :
      Moved maxBytes world step
        { world.more { world.store with
            entries := world.store.entries.insert handle.id
              { entry with holders := entry.holders.hold handle.holder } } handle with
          stated := stated }
  | first (holder : Holder) (wanted : Wanted) (asks : wanting step = some (holder, .ok wanted))
      (absent : world.store.entries.lookup wanted.id = none)
      (fits : saturatingAdd world.store.held wanted.size.toNat ≤ maxBytes.toNat) :
      Moved maxBytes world step
        { world.more
            { held := saturatingAdd world.store.held wanted.size.toNat
              entries := world.store.entries.insert wanted.id
                ⟨wanted.body, wanted.size.toNat, HandleCounts.hold ∅ holder⟩ }
            ⟨wanted.id, holder⟩ with
          stated := world.firstStated wanted }
  | dead (handle : ContentHandle) (absent : world.store.entries.lookup handle.id = none)
      (made : Nat) (here : world.handleOf made = some handle) :
      Moved maxBytes world step { world with handles := world.handles ++ [some handle] }
  | fewer (handle : ContentHandle) (made : Nat) (here : world.handleOf made = some handle)
      (asks : wanting step = none) :
      Moved maxBytes world step
        { world with
          store := world.store.dropHandle handle
          handles := world.handles.set made none ++ [none] }

/-- Every step moves the world as it should. -/
theorem perform_moved (maxBytes : UInt64) (world : World) (step : StoreStep) :
    Moved maxBytes world step (world.perform maxBytes step) := by
  cases put : wanting step with
  | some asked =>
    obtain ⟨holder, asked⟩ := asked
    rw [perform_put maxBytes world step holder asked put]
    cases asked with
    | error refusal =>
      rw [answered, put]
      refine .unchanged fun holder wanted asks => ?_
      rw [put] at asks
      cases asks
    | ok wanted =>
      rw [State.holdWanted, State.hold]
      cases held : world.store.entries.lookup wanted.id with
      | some entry =>
        dsimp only
        rw [answered, put]
        refine .again ⟨wanted.id, holder⟩ entry (world.firstStated wanted) held (fun lives => ?_)
          fun holder' wanted' asks => ?_
        · rw [firstStated, if_pos lives]
        · rw [put] at asks
          cases asks
          rfl
      | none =>
        dsimp only
        split
        · rename_i full
          rw [answered, put]
          refine .unchanged fun holder' wanted' asks _ => ?_
          rw [put] at asks
          cases asks
          exact full
        · rename_i fits
          rw [answered, put]
          exact .first holder wanted put held (Nat.le_of_not_lt fits)
  | none =>
    have unasked : ∀ holder wanted, wanting step = some (holder, .ok wanted) →
        world.store.entries.lookup wanted.id = none →
          maxBytes.toNat < saturatingAdd world.store.held wanted.size.toNat := by
      intro holder wanted asks
      rw [put] at asks
      cases asks
    cases step with
    | put bytes => cases put
    | putFor capability bytes => cases put
    | putReplay replay => cases put
    | putReplayFor capability replay => cases put
    | idle => exact .unchanged unasked
    | cloneHandle made =>
      rw [perform]
      cases here : world.handleOf made with
      | none => exact .unchanged unasked
      | some handle =>
        dsimp only
        rw [State.cloneHandle]
        cases held : world.store.entries.lookup handle.id with
        | none => exact .dead handle held made here
        | some entry =>
          exact .again handle entry world.stated held (fun _ => rfl) fun _ _ asks => by cases asks
    | dropHandle made =>
      rw [perform]
      cases here : world.handleOf made with
      | none => exact .unchanged unasked
      | some handle => exact .fewer handle made here put

/-- What is wanted can be read again. -/
theorem wanted_again (step : StoreStep) (holder : Holder) (wanted : Wanted)
    (asks : wanting step = some (holder, .ok wanted)) : wanted.body.share = some wanted.body := by
  have replayed (replay : Replay) (asks : wantedReplay replay = .ok wanted) :
      wanted.body.share = some wanted.body := by
    rw [wantedReplay] at asks
    split at asks
    · cases asks
    · split at asks
      · cases asks
      · cases asks
        rfl
  cases step with
  | put bytes => cases asks; rfl
  | putFor capability bytes => cases asks; rfl
  | putReplay replay => exact replayed replay (congrArg Prod.snd (Option.some.inj asks))
  | putReplayFor capability replay =>
    exact replayed replay (congrArg Prod.snd (Option.some.inj asks))
  | cloneHandle made => cases asks
  | dropHandle made => cases asks
  | idle => cases asks

/-- One step keeps it. -/
theorem Kept.step {maxBytes : UInt64} {world : World} (kept : world.Kept maxBytes)
    (step : StoreStep) : (world.perform maxBytes step).Kept maxBytes := by
  have moved := perform_moved maxBytes world step
  generalize world.perform maxBytes step = later at moved
  cases moved with
  | unchanged room =>
    refine ⟨fun id => ?_, kept.bounded⟩
    have same := kept.every id
    rw [number, ← number_none] at same
    exact same
  | again handle entry stated held same asks =>
    have lives := (kept.held_iff handle.id).mp (by rw [held]; rfl)
    refine ⟨fun id => ?_, kept.bounded⟩
    have own := kept.every id
    simp only [more, number, number_more, KeyedMap.lookup_insert_eq, same lives]
    by_cases here : id = handle.id
    · subst here
      rw [held] at own
      rw [if_pos rfl, if_pos rfl]
      exact own.more handle.holder
    · rw [if_neg here, if_neg here]
      exact own
  | first holder wanted asks absent fits =>
    refine ⟨fun id => ?_, fits⟩
    have own := kept.every id
    have dead : world.lives wanted.id = false := by
      rw [← Bool.not_eq_true, ← kept.held_iff wanted.id, absent]
      nofun
    simp only [more, number, number_more, KeyedMap.lookup_insert_eq, firstStated, dead]
    by_cases here : id = wanted.id
    · subst here
      rw [absent] at own
      rw [if_pos rfl, if_pos rfl, if_neg Bool.false_ne_true, Function.update_self]
      exact own.start holder wanted.body _ (wanted_again step holder wanted asks)
    · rw [if_neg here, if_neg here, if_neg Bool.false_ne_true, Function.update_of_ne here]
      exact own
  | dead handle absent made here =>
    obtain ⟨entry, held⟩ := kept.entry_of_handle here
    rw [absent] at held
    cases held
  | fewer handle made here asks =>
    obtain ⟨entry, held⟩ := kept.entry_of_handle here
    refine ⟨fun id => ?_, (drop_held_le _ _).trans kept.bounded⟩
    have own := kept.every id
    simp only [number, number_none, number_fewer _ handle made here, drop_lookup _ _ _ _ held]
    by_cases same : id = handle.id
    · subst same
      rw [held] at own
      rw [if_pos rfl, if_pos rfl]
      exact own.fewer handle.holder
    · rw [if_neg same, if_neg same]
      exact own

/-- Every run keeps it. -/
theorem kept_after (maxBytes : UInt64) (steps : List StoreStep) :
    (after maxBytes steps).Kept maxBytes := by
  induction steps using List.reverseRecOn with
  | nil => exact ⟨fun _ => .gone _ _ fun _ => rfl, Nat.zero_le _⟩
  | append_singleton steps step ih =>
    rw [after, List.foldl_concat]
    exact ih.step step

/-- The sum of the sizes of the distinct contents held. -/
def total (world : World) : Nat := sizes world.store.entries

/-- Whether the total that is kept is that sum. -/
def Exact (world : World) : Prop := world.store.held = world.total

/-- A put of content that is not held is refused for want of room under a smaller bound than a
word's, or leaves the sum of the sizes within a word. -/
def Fits (maxBytes : UInt64) (world : World) (step : StoreStep) : Prop :=
  ∀ holder wanted, wanting step = some (holder, .ok wanted) → world.lives wanted.id = false →
    maxBytes.toNat < wordMax ∨ world.total + wanted.size.toNat ≤ wordMax

/-- A step from exact books leaves them exact exactly when it fits. -/
theorem Kept.exact_iff_fits {maxBytes : UInt64} {world : World} (kept : world.Kept maxBytes)
    (exact_ : world.Exact) (step : StoreStep) :
    (world.perform maxBytes step).Exact ↔ world.Fits maxBytes step := by
  have moved := perform_moved maxBytes world step
  have absent_iff (id : ContentId) : world.lives id = false ↔
      world.store.entries.lookup id = none := by
    rw [← Bool.not_eq_true, ← kept.held_iff id, Bool.not_eq_true, Option.isSome_eq_false_iff,
      Option.isNone_iff_eq_none]
  have undemanding (none : ∀ holder wanted, wanting step = some (holder, .ok wanted) →
      world.lives wanted.id = true) : world.Fits maxBytes step := by
    intro holder wanted asks dead
    rw [none holder wanted asks] at dead
    cases dead
  generalize world.perform maxBytes step = later at moved
  cases moved with
  | unchanged room =>
    refine ⟨fun _ holder wanted asks dead => ?_, fun _ => exact_⟩
    have full := room holder wanted asks ((absent_iff wanted.id).mp dead)
    exact .inl (full.trans_le (Nat.min_le_right _ _))
  | again handle entry stated held same asks =>
    refine ⟨fun _ => undemanding fun holder wanted asked => ?_, fun _ => ?_⟩
    · rw [asks holder wanted asked, ← kept.held_iff, held]
      rfl
    · show world.store.held = sizes (world.store.entries.insert handle.id _)
      rw [sizes_insert, ← sizes_erase held]
      exact exact_
  | first holder wanted asks absent fits =>
    have grown : sizes (world.store.entries.insert wanted.id
        ⟨wanted.body, wanted.size.toNat, HandleCounts.hold ∅ holder⟩) =
        world.total + wanted.size.toNat := by
      rw [sizes_insert, KeyedMap.erase_of_lookup_none _ _ absent, total, Nat.add_comm]
    have books : world.store.held = world.total := exact_
    show saturatingAdd world.store.held wanted.size.toNat = sizes (world.store.entries.insert _ _) ↔ _
    rw [grown, saturatingAdd, books]
    rw [saturatingAdd, books] at fits
    constructor
    · intro same holder' wanted' asks' _
      rw [asks] at asks'
      cases asks'
      omega
    · intro fit
      rcases fit holder wanted asks ((absent_iff wanted.id).mpr absent) with bound | within
      · omega
      · exact Nat.min_eq_left within
  | dead handle absent made here =>
    obtain ⟨entry, held⟩ := kept.entry_of_handle here
    rw [absent] at held
    cases held
  | fewer handle made here asks =>
    obtain ⟨entry, held⟩ := kept.entry_of_handle here
    refine ⟨fun _ => undemanding fun holder wanted asked => ?_, fun _ => ?_⟩
    · rw [asks] at asked
      cases asked
    · rw [Exact, total, State.dropHandle, held]
      dsimp only
      rw [Exact, total, sizes_erase held] at exact_
      split
      · rw [exact_, Nat.add_sub_cancel_left]
      · rw [sizes_insert]
        exact exact_

end World

end ContentStore

end Ikigai
