import Ikigai.StoreRuns

/-!
# Who reads held content

An id is answered to root while a handle for it lives, and to another capability while a handle
lives that was taken for whom it acts as. What others hold therefore makes no difference to
it: dropping all they hold answers it the same, and so does a run in which they never took
part, but for what the bound refused.
-/

namespace Ikigai

namespace ContentStore

variable [IriSyntax]

/-- Whether a handle was taken for whom a capability acts as. -/
def ContentHandle.own (capability : Capability) (handle : ContentHandle) : Bool :=
  handle.holder.admits capability

namespace World

variable [ContentHash]

/-- Whether some live handle for an id was taken for whom a capability acts as. -/
def Owns (world : World) (capability : Capability) (id : ContentId) : Prop :=
  ∃ made handle, world.handleOf made = some handle ∧ handle.id = id ∧ handle.own capability = true

omit [IriSyntax] [ContentHash] in
/-- Somebody holds a content exactly when a handle of theirs is out. -/
theorem number_pos_iff (world : World) (id : ContentId) (holder : Holder) :
    0 < world.number id holder ↔ ∃ made, world.handleOf made = some ⟨id, holder⟩ := by
  rw [number, numberIn, List.count_pos_iff, List.mem_iff_getElem?]
  simp only [handleOf, Option.join_eq_some_iff]

omit [ContentHash] in
/-- A capability owns a content exactly when it admits somebody who holds it. -/
theorem owns_iff (world : World) (capability : Capability) (id : ContentId) :
    world.Owns capability id ↔
      ∃ holder, 0 < world.number id holder ∧ holder.admits capability = true := by
  constructor
  · rintro ⟨made, ⟨_, holder⟩, here, rfl, own⟩
    exact ⟨holder, (world.number_pos_iff _ _).mpr ⟨made, here⟩, own⟩
  · rintro ⟨holder, some_, own⟩
    obtain ⟨made, here⟩ := (world.number_pos_iff _ _).mp some_
    exact ⟨made, _, here, rfl, own⟩

omit [ContentHash] in
/-- A key of a count map is one that a capability is admitted by exactly when such a one lives. -/
theorem any_admits_iff {counts : HandleCounts Holder} {number : Holder → Nat}
    (tells : counts.Tells number) (capability : Capability) :
    (counts.entries.any fun holder => holder.1.admits capability) = true ↔
      ∃ holder, 0 < number holder ∧ holder.admits capability = true := by
  rw [List.any_eq_true]
  constructor
  · rintro ⟨⟨holder, count⟩, inside, own⟩
    exact ⟨holder, (tells.held_iff holder).mp ⟨count, (KeyedMap.mem_entries_iff _ _ _).mp inside⟩,
      own⟩
  · rintro ⟨holder, some_, own⟩
    obtain ⟨count, held⟩ := (tells.held_iff holder).mpr some_
    exact ⟨⟨holder, count⟩, (KeyedMap.mem_entries_iff _ _ _).mpr held, own⟩

omit [ContentHash] in
/-- An id is answered, with its body, to root and to whoever owns a hold on it. -/
theorem Kept.get_for {maxBytes : UInt64} {world : World} (kept : world.Kept maxBytes)
    (id : ContentId) (capability : Capability) (body : Body) :
    world.store.getFor id capability = some body ↔
      (∃ entry, world.store.entries.lookup id = some entry ∧ entry.body = body) ∧
        (capability.isRoot = true ∨ world.Owns capability id) := by
  rw [State.getFor, owns_iff]
  have own := kept.every id
  cases held : world.store.entries.lookup id with
  | none =>
    constructor
    · intro answer
      cases answer
    · rintro ⟨⟨_, none, _⟩, _⟩
      cases none
  | some entry =>
    rw [held] at own
    obtain ⟨counted, _, again, _⟩ := own.entry
    rw [Option.bind_some, again]
    have readable : (capability.isRoot ||
        entry.holders.entries.any fun holder => holder.1.admits capability) = true ↔
        capability.isRoot = true ∨
          ∃ holder, 0 < world.number id holder ∧ holder.admits capability = true := by
      rw [Bool.or_eq_true, any_admits_iff counted]
    by_cases may : capability.isRoot = true ∨
        ∃ holder, 0 < world.number id holder ∧ holder.admits capability = true
    · rw [if_pos (readable.mpr may)]
      simp [may]
    · rw [if_neg (mt readable.mp may)]
      simp [may]

omit [ContentHash] in
/-- An id is answered exactly when a handle for it lives, and to root or to whoever owns one. -/
theorem Kept.answers_iff {maxBytes : UInt64} {world : World} (kept : world.Kept maxBytes)
    (id : ContentId) (capability : Capability) :
    (world.store.getFor id capability).isSome = true ↔
      world.lives id = true ∧ (capability.isRoot = true ∨ world.Owns capability id) := by
  rw [← kept.held_iff, Option.isSome_iff_exists, Option.isSome_iff_exists]
  simp only [kept.get_for id capability]
  constructor
  · rintro ⟨body, ⟨entry, held, _⟩, may⟩
    exact ⟨⟨entry, held⟩, may⟩
  · rintro ⟨⟨entry, held⟩, may⟩
    exact ⟨entry.body, ⟨entry, held, rfl⟩, may⟩

omit [ContentHash] in
/-- What is owned lives. -/
theorem Owns.lives {world : World} {capability : Capability} {id : ContentId}
    (owns : world.Owns capability id) : world.lives id = true := by
  obtain ⟨holder, some_, _⟩ := (world.owns_iff capability id).mp owns
  exact (world.lives_iff id).mpr ⟨holder, some_⟩

/-- What a drop leaves under an id is what was there, with the same body. -/
theorem Kept.body_of_drop {maxBytes : UInt64} {world : World} (kept : world.Kept maxBytes)
    (made : Nat) (id : ContentId) (entry : Entry)
    (held : (world.perform maxBytes (.dropHandle made)).store.entries.lookup id = some entry) :
    ∃ before, world.store.entries.lookup id = some before ∧ before.body = entry.body := by
  rw [perform] at held
  cases here : world.handleOf made with
  | none =>
    rw [here] at held
    exact ⟨entry, held, rfl⟩
  | some handle =>
    rw [here] at held
    obtain ⟨before, stood⟩ := kept.entry_of_handle here
    dsimp only at held
    rw [drop_lookup _ _ _ _ stood] at held
    by_cases same : id = handle.id
    · rw [if_pos same] at held
      split at held
      · cases held
      · cases held
        exact ⟨before, same ▸ stood, rfl⟩
    · rw [if_neg same] at held
      exact ⟨entry, held, rfl⟩

/-- After a handle was dropped, every other one is as it was. -/
theorem handle_of_drop (maxBytes : UInt64) (world : World) (made other : Nat) :
    (world.perform maxBytes (.dropHandle made)).handleOf other =
      if other = made then none else world.handleOf other := by
  have appended (handles : List (Option ContentHandle)) :
      ((handles ++ [none])[other]?).join = (handles[other]?).join := by
    rw [List.getElem?_append]
    split
    · rfl
    · rename_i outside
      rw [List.getElem?_eq_none (Nat.le_of_not_lt outside)]
      cases other - handles.length <;> rfl
  rw [perform]
  cases here : world.handleOf made with
  | none =>
    dsimp only
    rw [handleOf, appended]
    split
    · rename_i same
      rw [same]
      exact here
    · rfl
  | some handle =>
    dsimp only
    rw [handleOf, appended, List.getElem?_set]
    by_cases same : other = made
    · rw [if_pos same.symm, if_pos same]
      split <;> rfl
    · rw [if_neg (Ne.symm same), if_neg same]
      rfl

/-- Dropping what a capability does not own changes no answer to it. -/
theorem Kept.drop_foreign {maxBytes : UInt64} {world : World} (kept : world.Kept maxBytes)
    (capability : Capability) (notRoot : capability.isRoot = false) (made : Nat)
    (foreign : ∀ handle, world.handleOf made = some handle → handle.own capability = false)
    (id : ContentId) :
    (world.perform maxBytes (.dropHandle made)).store.getFor id capability =
      world.store.getFor id capability := by
  have later := kept.step (.dropHandle made)
  have owns : (world.perform maxBytes (.dropHandle made)).Owns capability id ↔
      world.Owns capability id := by
    refine exists_congr fun other => exists_congr fun handle => ?_
    rw [handle_of_drop]
    by_cases same : other = made
    · subst same
      rw [if_pos rfl]
      constructor
      · rintro ⟨none, _⟩
        cases none
      · rintro ⟨here, _, own⟩
        rw [foreign handle here] at own
        cases own
    · rw [if_neg same]
  apply Option.ext
  intro body
  rw [later.get_for, kept.get_for, owns, notRoot]
  constructor
  · rintro ⟨⟨entry, held, rfl⟩, may⟩
    obtain ⟨before, stood, same⟩ := kept.body_of_drop made id entry held
    exact ⟨⟨before, stood, same⟩, may⟩
  · rintro ⟨⟨before, stood, rfl⟩, may⟩
    have own := owns.mpr (may.resolve_left Bool.false_ne_true)
    obtain ⟨entry, held⟩ := Option.isSome_iff_exists.mp ((later.held_iff id).mpr own.lives)
    obtain ⟨before', stood', same⟩ := kept.body_of_drop made id entry held
    rw [stood] at stood'
    cases stood'
    exact ⟨⟨entry, held, same.symm⟩, may⟩

/-- Dropping handles one after the other. -/
def dropAll (maxBytes : UInt64) (world : World) (made : List Nat) : World :=
  made.foldl (fun world made => world.perform maxBytes (.dropHandle made)) world

/-- Handles dropped are gone, and no others. -/
theorem handle_of_drop_all (maxBytes : UInt64) (world : World) (made : List Nat) (other : Nat) :
    (world.dropAll maxBytes made).handleOf other =
      if other ∈ made then none else world.handleOf other := by
  induction made generalizing world with
  | nil => rfl
  | cons first made ih =>
    rw [dropAll, List.foldl_cons]
    refine (ih _).trans ?_
    rw [handle_of_drop]
    by_cases later : other ∈ made
    · rw [if_pos later, if_pos (List.mem_cons_of_mem _ later)]
    · by_cases here : other = first
      · rw [if_neg later, if_pos here, if_pos (here ▸ List.mem_cons_self)]
      · rw [if_neg later, if_neg here, if_neg (by simp [here, later])]

/-- Dropping other people's handles leaves the store kept. -/
theorem Kept.drop_all_foreign {maxBytes : UInt64} {world : World} (kept : world.Kept maxBytes)
    (capability : Capability) (notRoot : capability.isRoot = false) (made : List Nat)
    (foreign : ∀ one ∈ made, ∀ handle, world.handleOf one = some handle →
      handle.own capability = false) (id : ContentId) :
    (world.dropAll maxBytes made).store.getFor id capability =
      world.store.getFor id capability := by
  induction made generalizing world with
  | nil => rfl
  | cons first made ih =>
    rw [List.forall_mem_cons] at foreign
    rw [dropAll, List.foldl_cons]
    refine (ih (kept.step _) fun one inside handle here => ?_).trans
      (kept.drop_foreign capability notRoot first foreign.1 id)
    rw [handle_of_drop] at here
    split at here
    · cases here
    · exact foreign.2 one inside handle here

/-- The steps whose handles live and were not taken for whom a capability acts as. -/
def foreign (world : World) (capability : Capability) : List Nat :=
  (List.range world.handles.length).filter fun made =>
    (world.handleOf made).any fun handle => !handle.own capability

/-- The store from which every handle taken for others was removed answers the same. -/
theorem Kept.without_foreign {maxBytes : UInt64} {world : World} (kept : world.Kept maxBytes)
    (capability : Capability) (notRoot : capability.isRoot = false) :
    (∀ made handle, (world.dropAll maxBytes (world.foreign capability)).handleOf made =
        some handle ↔ world.handleOf made = some handle ∧ handle.own capability = true) ∧
      ∀ id, (world.dropAll maxBytes (world.foreign capability)).store.getFor id capability =
        world.store.getFor id capability := by
  have listed (made : Nat) : made ∈ world.foreign capability ↔
      ∃ handle, world.handleOf made = some handle ∧ handle.own capability = false := by
    rw [foreign, List.mem_filter, Option.any_eq_true, List.mem_range]
    constructor
    · rintro ⟨_, handle, here, other⟩
      exact ⟨handle, here, by simpa using other⟩
    · rintro ⟨handle, here, other⟩
      refine ⟨?_, handle, here, by simpa using other⟩
      exact (List.getElem?_eq_some_iff.mp (Option.join_eq_some_iff.mp here)).1
  refine ⟨fun made handle => ?_, kept.drop_all_foreign capability notRoot _ ?_⟩
  · rw [handle_of_drop_all]
    cases here : world.handleOf made with
    | none => simp
    | some found =>
      by_cases other : found.own capability = true
      · have kept_ : made ∉ world.foreign capability := by
          rw [listed, here]
          rintro ⟨_, same, not⟩
          cases same
          rw [other] at not
          cases not
        rw [if_neg kept_]
        constructor
        · intro same
          cases same
          exact ⟨rfl, other⟩
        · exact And.left
      · rw [if_pos ((listed made).mpr ⟨found, here, by simpa using other⟩)]
        constructor
        · intro none
          cases none
        · rintro ⟨same, own⟩
          cases same
          exact absurd own other
  · intro made inside handle here
    obtain ⟨found, here', other⟩ := (listed made).mp inside
    rw [here] at here'
    cases here'
    exact other

/-- Whether a step is one of those a capability acts for: a put for them, or what is done to a
handle of theirs. -/
def ownStep (world : World) (capability : Capability) (step : StoreStep) : Bool :=
  match wanting step, step with
  | some (holder, _), _ => holder.admits capability
  | none, .cloneHandle made | none, .dropHandle made =>
    (world.handleOf made).any fun handle => handle.own capability
  | none, _ => false

/-- A put is a capability's own step exactly when the capability admits the holder it is put for.
-/
theorem own_put (world : World) (capability : Capability) (step : StoreStep) (holder : Holder)
    (asked : Except Error Wanted) (put : wanting step = some (holder, asked)) :
    world.ownStep capability step = holder.admits capability := by
  unfold ownStep
  rw [put]

/-- A run with every step of others left out. -/
def alone (maxBytes : UInt64) (capability : Capability) : World → List StoreStep → List StoreStep
  | _, [] => []
  | world, step :: steps =>
    (if world.ownStep capability step then step else .idle) ::
      alone maxBytes capability (world.perform maxBytes step) steps

/-- Whether what a put wants is held, or there is room for it. -/
def HasRoom (maxBytes : UInt64) (world : World) (step : StoreStep) : Prop :=
  ∀ holder wanted, wanting step = some (holder, .ok wanted) →
    world.store.entries.lookup wanted.id = none →
      saturatingAdd world.store.held wanted.size.toNat ≤ maxBytes.toNat

/-- A run alone with a step more is the run, and then the step if it is one's own. -/
theorem alone_concat (maxBytes : UInt64) (capability : Capability) (world : World)
    (steps : List StoreStep) (step : StoreStep) :
    alone maxBytes capability world (steps ++ [step]) =
      alone maxBytes capability world steps ++
        [if (steps.foldl (perform maxBytes) world).ownStep capability step then step
          else .idle] := by
  induction steps generalizing world with
  | nil => rfl
  | cons first steps ih =>
    rw [List.cons_append, alone, ih, alone, List.cons_append, List.foldl_cons]

/-- A world with the handles of one capability's own only. -/
def Mirrors (capability : Capability) (world mirror : World) : Prop :=
  mirror.handles = world.handles.map fun slot => slot.filter (ContentHandle.own capability)

omit [ContentHash] in
/-- A mirror has just the handles that are one's own. -/
theorem Mirrors.handle_of {capability : Capability} {world mirror : World}
    (mirrors : Mirrors capability world mirror) (made : Nat) :
    mirror.handleOf made = (world.handleOf made).filter (ContentHandle.own capability) := by
  rw [handleOf, handleOf, mirrors, List.getElem?_map]
  cases world.handles[made]? <;> rfl

omit [ContentHash] in
/-- In a mirror one owns what one owns in the world. -/
theorem Mirrors.owns_iff {capability : Capability} {world mirror : World}
    (mirrors : Mirrors capability world mirror) (id : ContentId) :
    mirror.Owns capability id ↔ world.Owns capability id := by
  refine exists_congr fun made => exists_congr fun handle => ?_
  rw [mirrors.handle_of, Option.filter_eq_some_iff]
  tauto

/-- What a put adds to the handles: its own, or none. -/
theorem put_handles (maxBytes : UInt64) (world : World) (step : StoreStep) (holder : Holder)
    (asked : Except Error Wanted) (put : wanting step = some (holder, asked)) :
    ∃ slot, (world.perform maxBytes step).handles = world.handles ++ [slot] ∧
      ∀ handle, slot = some handle → handle.holder = holder := by
  rw [perform_put maxBytes world step holder asked put]
  refine ⟨_, rfl, fun handle made => ?_⟩
  cases asked with
  | error refusal => cases made
  | ok wanted =>
    rw [State.holdWanted, State.hold] at made
    split at made
    · cases made
      rfl
    · dsimp only at made
      split at made
      · cases made
      · cases made
        rfl

/-- A put that there is room for adds its own, and one refused outright none. -/
theorem put_handles_room (maxBytes : UInt64) (world : World) (step : StoreStep) (holder : Holder)
    (asked : Except Error Wanted) (put : wanting step = some (holder, asked))
    (room : world.HasRoom maxBytes step) :
    (world.perform maxBytes step).handles =
      world.handles ++ [asked.toOption.map fun wanted => ⟨wanted.id, holder⟩] := by
  rw [perform_put maxBytes world step holder asked put]
  show world.handles ++ [_] = _
  congr 2
  cases asked with
  | error refusal => rfl
  | ok wanted =>
    rw [State.holdWanted, State.hold]
    cases held : world.store.entries.lookup wanted.id with
    | some entry => rfl
    | none =>
      dsimp only
      rw [if_neg (Nat.not_lt.mpr (room holder wanted put held))]
      rfl

omit [IriSyntax] [ContentHash] in
/-- Where there is nothing, there is nothing after that was set. -/
theorem set_nothing {α : Type} (slots : List (Option α)) (made : Nat)
    (nothing : (slots[made]?).join = none) : slots.set made none = slots := by
  apply List.ext_getElem?
  intro other
  rw [List.getElem?_set]
  by_cases same : made = other
  · subst same
    rw [if_pos rfl]
    split
    · rename_i inside
      rw [List.getElem?_eq_getElem inside] at nothing ⊢
      exact congrArg some nothing.symm
    · rename_i outside
      exact (List.getElem?_eq_none (Nat.le_of_not_lt outside)).symm
  · rw [if_neg same]

/-- One step, and in the mirror its own part of it. -/
theorem Mirrors.step {maxBytes : UInt64} {capability : Capability} {world mirror : World}
    (mirrors : Mirrors capability world mirror) (step : StoreStep)
    (room : world.ownStep capability step = true →
      world.HasRoom maxBytes step ∧ mirror.HasRoom maxBytes step) :
    Mirrors capability (world.perform maxBytes step) (mirror.perform maxBytes
      (if world.ownStep capability step then step else .idle)) := by
  have idle : (mirror.perform maxBytes .idle).handles = mirror.handles ++ [none] := rfl
  have added (slot : Option ContentHandle) (none : slot.filter (ContentHandle.own capability) = none)
      (later : World) (same : later.handles = world.handles ++ [slot]) :
      Mirrors capability later (mirror.perform maxBytes .idle) := by
    rw [Mirrors, same, idle, mirrors, List.map_append, List.map_singleton, none]
  cases put : wanting step with
  | some asked =>
    obtain ⟨holder, asked⟩ := asked
    have own := world.own_put capability step holder asked put
    cases admits : holder.admits capability with
    | true =>
      rw [own, admits] at room ⊢
      rw [if_pos rfl, Mirrors, put_handles_room maxBytes world step holder asked put (room rfl).1,
        put_handles_room maxBytes mirror step holder asked put (room rfl).2, mirrors,
        List.map_append, List.map_singleton]
      cases asked with
      | error refusal => rfl
      | ok wanted =>
        have kept : ContentHandle.own capability ⟨wanted.id, holder⟩ = true := admits
        show _ = _ ++ [(some _).filter _]
        rw [Option.filter_some, kept]
        rfl
    | false =>
      rw [own, admits, if_neg Bool.false_ne_true]
      obtain ⟨slot, same, theirs⟩ := put_handles maxBytes world step holder asked put
      refine added slot ?_ _ same
      cases slot with
      | none => rfl
      | some handle =>
        have foreign : handle.own capability = false := by
          rw [ContentHandle.own, theirs handle rfl]
          exact admits
        rw [Option.filter_some, foreign]
        rfl
  | none =>
    cases step with
    | put bytes => cases put
    | putFor capability bytes => cases put
    | putReplay replay => cases put
    | putReplayFor capability replay => cases put
    | idle => exact added none rfl _ rfl
    | cloneHandle made =>
      have own : world.ownStep capability (.cloneHandle made) =
          (world.handleOf made).any fun handle => handle.own capability := rfl
      rw [own]
      cases here : world.handleOf made with
      | none =>
        refine added none rfl _ ?_
        rw [perform, here]
      | some handle =>
        have cloned : (world.perform maxBytes (.cloneHandle made)).handles =
            world.handles ++ [some handle] := by rw [perform, here]
        rw [Option.any_some]
        cases theirs : handle.own capability with
        | false =>
          refine added (some handle) ?_ _ cloned
          rw [Option.filter_some, theirs]
          rfl
        | true =>
          have here' : mirror.handleOf made = some handle := by
            rw [mirrors.handle_of, here, Option.filter_some, theirs]
            rfl
          rw [if_pos rfl, Mirrors, cloned, perform, here', mirrors, List.map_append,
            List.map_singleton, Option.filter_some, theirs]
          rfl
    | dropHandle made =>
      have own : world.ownStep capability (.dropHandle made) =
          (world.handleOf made).any fun handle => handle.own capability := rfl
      rw [own]
      cases here : world.handleOf made with
      | none =>
        refine added none rfl _ ?_
        rw [perform, here]
      | some handle =>
        have dropped : (world.perform maxBytes (.dropHandle made)).handles =
            world.handles.set made none ++ [none] := by rw [perform, here]
        rw [Option.any_some]
        cases theirs : handle.own capability with
        | false =>
          have same : (world.handles.map fun slot =>
              slot.filter (ContentHandle.own capability)).set made none =
              world.handles.map fun slot => slot.filter (ContentHandle.own capability) := by
            have slot := mirrors.handle_of made
            rw [here, Option.filter_some, theirs, handleOf, mirrors] at slot
            exact set_nothing _ made slot
          rw [if_neg Bool.false_ne_true, Mirrors, dropped, idle, mirrors, List.map_append,
            List.map_set, Option.filter_none, same]
          rfl
        | true =>
          have here' : mirror.handleOf made = some handle := by
            rw [mirrors.handle_of, here, Option.filter_some, theirs]
            rfl
          rw [if_pos rfl, Mirrors, dropped, perform, here', mirrors, List.map_append,
            List.map_set]
          rfl

end World

end ContentStore

end Ikigai
