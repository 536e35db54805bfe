import Ikigai.StoreReaders

/-!
# The books and the callers of the content store

What every state of every run keeps, whoever put and dropped what. The total in bytes is kept
by saturating addition, so it is the sum of the sizes in every state exactly when no put took that
sum past a word.
-/

namespace Ikigai

namespace ContentStore

variable [IriSyntax] [ContentHash]

namespace World

/-- Everything but the total: the bound, what is held and at what size, what a refusal leaves, and
who is answered what. -/
structure Apart (maxBytes : UInt64) (world : World) : Prop where
  bounded : world.store.held ≤ maxBytes.toNat
  held : ∀ id, (world.store.entries.lookup id).isSome = true ↔ world.lives id = true
  sized : ∀ id entry, world.store.entries.lookup id = some entry → entry.size = world.stated id
  refused : ∀ step holder asked, wanting step = some (holder, asked) →
    (∃ refusal, (world.store.holdWanted maxBytes holder asked).2 = .error refusal) →
      world.perform maxBytes step = { world with handles := world.handles ++ [none] }
  answers : ∀ id capability, (world.store.getFor id capability).isSome = true ↔
    world.lives id = true ∧ (capability.isRoot = true ∨ world.Owns capability id)
  without : ∀ capability, capability.isRoot = false → ∀ id,
    (world.dropAll maxBytes (world.foreign capability)).store.getFor id capability =
      world.store.getFor id capability

/-- A put that is refused leaves the store and every handle. -/
theorem refused_unchanged (maxBytes : UInt64) (world : World) (step : StoreStep) (holder : Holder)
    (asked : Except Error Wanted) (put : wanting step = some (holder, asked))
    (refused : ∃ refusal, (world.store.holdWanted maxBytes holder asked).2 = .error refusal) :
    world.perform maxBytes step = { world with handles := world.handles ++ [none] } := by
  obtain ⟨refusal, refused⟩ := refused
  rw [perform_put maxBytes world step holder asked put]
  cases asked with
  | error reason =>
    rw [answered, put]
    rfl
  | ok wanted =>
    rw [State.holdWanted, State.hold] at refused ⊢
    cases held : world.store.entries.lookup wanted.id with
    | some entry =>
      rw [held] at refused
      cases refused
    | none =>
      rw [held] at refused
      dsimp only at refused ⊢
      split
      · rw [answered, put]
        rfl
      · rename_i fits
        rw [if_neg fits] at refused
        cases refused

theorem Kept.apart {maxBytes : UInt64} {world : World} (kept : world.Kept maxBytes) :
    world.Apart maxBytes := by
  constructor
  · exact kept.bounded
  · exact kept.held_iff
  · intro id entry held
    have own := kept.every id
    rw [held] at own
    obtain ⟨_, _, _, stated⟩ := own.entry
    exact stated.symm
  · exact world.refused_unchanged maxBytes
  · exact kept.answers_iff
  · intro capability notRoot
    exact (kept.without_foreign capability notRoot).2

/-- Every state of every run keeps its callers apart. -/
theorem apart_after (maxBytes : UInt64) (steps : List StoreStep) :
    (after maxBytes steps).Apart maxBytes :=
  (kept_after maxBytes steps).apart

end World

open World

/-- A run in which only one capability's own steps were taken. -/
def ownRun (maxBytes : UInt64) (capability : Capability) (steps : List StoreStep) :
    List StoreStep :=
  alone maxBytes capability {} steps

/-- No put of its own meets a full store, in the run or where it ran by itself. -/
def Roomy (maxBytes : UInt64) (capability : Capability) (steps : List StoreStep) : Prop :=
  ∀ front step, front ++ [step] <+: steps →
    (after maxBytes front).ownStep capability step = true →
      (after maxBytes front).HasRoom maxBytes step ∧
        (after maxBytes (ownRun maxBytes capability front)).HasRoom maxBytes step

/-- The handles of the run of its own steps are its own handles of the run. -/
theorem mirrors_after (maxBytes : UInt64) (capability : Capability) (steps : List StoreStep)
    (roomy : Roomy maxBytes capability steps) :
    Mirrors capability (after maxBytes steps)
      (after maxBytes (ownRun maxBytes capability steps)) := by
  induction steps using List.reverseRecOn with
  | nil => rfl
  | append_singleton steps step ih =>
    have before := ih fun front last within =>
      roomy front last (within.trans (List.prefix_append steps [step]))
    have room := roomy steps step (List.prefix_refl _)
    rw [ownRun, alone_concat, after, after, List.foldl_concat, List.foldl_concat]
    exact before.step step room

/-- Whoever is not root cannot tell that others took part, but for what the bound refused. -/
def Unnoticed (maxBytes : UInt64) (steps : List StoreStep) : Prop :=
  ∀ capability, capability.isRoot = false → Roomy maxBytes capability steps → ∀ id,
    ((after maxBytes steps).store.getFor id capability).isSome =
      ((after maxBytes (ownRun maxBytes capability steps)).store.getFor id capability).isSome

theorem unnoticed_after (maxBytes : UInt64) (steps : List StoreStep) :
    Unnoticed maxBytes steps := by
  intro capability notRoot roomy id
  have mirrors := mirrors_after maxBytes capability steps roomy
  rw [Bool.eq_iff_iff, (kept_after maxBytes steps).answers_iff,
    (kept_after maxBytes (ownRun maxBytes capability steps)).answers_iff, mirrors.owns_iff, notRoot]
  constructor
  · rintro ⟨_, may⟩
    have owns := may.resolve_left Bool.false_ne_true
    exact ⟨((mirrors.owns_iff id).mpr owns).lives, may⟩
  · rintro ⟨_, may⟩
    exact ⟨(may.resolve_left Bool.false_ne_true).lives, may⟩

/-- Every put of content that is not held leaves the sum of the sizes within a word, or the store
is bounded below a word. -/
def WithinWord (maxBytes : UInt64) (steps : List StoreStep) : Prop :=
  ∀ front step, front ++ [step] <+: steps → (after maxBytes front).Fits maxBytes step

/-- The total is exact in every state of a run exactly when every step of it fits. -/
theorem exact_iff_within (maxBytes : UInt64) (steps : List StoreStep) :
    (∀ front, front <+: steps → (after maxBytes front).Exact) ↔ WithinWord maxBytes steps := by
  constructor
  · intro exact_ front step within
    have later := exact_ (front ++ [step]) within
    rw [after, List.foldl_concat] at later
    exact ((kept_after maxBytes front).exact_iff_fits
      (exact_ front ((List.prefix_append front [step]).trans within)) step).mp later
  · intro fits front
    induction front using List.reverseRecOn with
    | nil => exact fun _ => rfl
    | append_singleton front step ih =>
      intro within
      rw [after, List.foldl_concat]
      exact ((kept_after maxBytes front).exact_iff_fits
        (ih ((List.prefix_append front [step]).trans within)) step).mpr (fits front step within)

/-- In every state of a run the total is the sum of the sizes and the callers are kept apart,
exactly when every put of content that is not held leaves that sum within a word. -/
theorem books_kept_iff_within (maxBytes : UInt64) (steps : List StoreStep) :
    (∀ front, front <+: steps → (after maxBytes front).Exact ∧
      (after maxBytes front).Apart maxBytes ∧ Unnoticed maxBytes front) ↔
      WithinWord maxBytes steps := by
  rw [← exact_iff_within]
  constructor
  · intro kept front within
    exact (kept front within).1
  · intro exact_ front within
    exact ⟨exact_ front within, apart_after maxBytes front, unnoticed_after maxBytes front⟩

end ContentStore

namespace ContentStore.BooksExample

local instance anyIri : IriSyntax := ⟨fun _ => true, fun _ => []⟩

local instance zeroHash : ContentHash := ⟨fun _ => Vector.replicate 32 0⟩

/-- A replay of some stated length, under a digest of one repeated byte. -/
def stating (byte : UInt8) (length : UInt64) : Replay :=
  ⟨0, some ⟨Vector.replicate 32 byte⟩, some length⟩

/-- A store without a bound: a body as long as a word tells, then another, then the first is
dropped. -/
def steps : List StoreStep :=
  [.putReplay (stating 1 18446744073709551615), .putReplay (stating 2 5), .dropHandle 0]

/-- What is left counts nothing, and is held. -/
theorem held_uncounted : ¬ ∀ (maxBytes : UInt64) (steps : List StoreStep) (front : List StoreStep),
    front <+: steps → (World.after maxBytes front).Exact := by
  intro every
  have books := every 18446744073709551615 steps steps (List.prefix_refl _)
  revert books
  show ¬ (World.after 18446744073709551615 steps).store.held =
    (World.after 18446744073709551615 steps).total
  decide

end ContentStore.BooksExample

end Ikigai
