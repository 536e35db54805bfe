import Ikigai.KeyedMap

/-!
# Handle counts

How many handles of each kind live, as a map that holds no zero: one more of a kind is counted,
one fewer is, and the last of a kind takes its key away. The map tells a number for every
kind, and is empty exactly when all of them are zero.
-/

namespace Ikigai

/-- How many live of each kind. -/
abbrev HandleCounts (κ : Type) := KeyedMap κ Nat

namespace HandleCounts

variable {κ : Type} [DecidableEq κ]

/-- `*counts.entry(key).or_default() += 1`. -/
def hold (counts : HandleCounts κ) (key : κ) : HandleCounts κ :=
  counts.insert key ((counts.lookup key).getD 0 + 1)

/-- One fewer; the last takes its key away. -/
def release (counts : HandleCounts κ) (key : κ) : HandleCounts κ :=
  match counts.lookup key with
  | some number => if number - 1 = 0 then counts.erase key else counts.insert key (number - 1)
  | none => counts

/-- The map tells these numbers, and holds no zero. -/
structure Tells (counts : HandleCounts κ) (number : κ → Nat) : Prop where
  told : ∀ key, (counts.lookup key).getD 0 = number key
  positive : ∀ key, counts.lookup key ≠ some 0

theorem tells_empty : Tells (∅ : HandleCounts κ) fun _ => 0 := ⟨fun _ => rfl, fun _ => nofun⟩

theorem Tells.hold {counts : HandleCounts κ} {number : κ → Nat} (tells : counts.Tells number)
    (key : κ) : (counts.hold key).Tells (Function.update number key (number key + 1)) := by
  constructor
  · intro other
    rw [HandleCounts.hold, KeyedMap.lookup_insert_eq, tells.told key]
    by_cases same : other = key
    · rw [if_pos same, same, Function.update_self, Option.getD_some]
    · rw [if_neg same, Function.update_of_ne same, tells.told]
  · intro other
    rw [HandleCounts.hold, KeyedMap.lookup_insert_eq]
    split
    · simp
    · exact tells.positive other

theorem Tells.release {counts : HandleCounts κ} {number : κ → Nat} (tells : counts.Tells number)
    (key : κ) : (counts.release key).Tells (Function.update number key (number key - 1)) := by
  rw [HandleCounts.release]
  cases held : counts.lookup key with
  | none =>
    have none : number key - 1 = number key := by
      rw [← tells.told key, held]
      rfl
    rw [none, Function.update_eq_self]
    exact tells
  | some count =>
    have told : number key = count := by rw [← tells.told key, held, Option.getD_some]
    dsimp only
    rw [told]
    split
    · rename_i last
      rw [last]
      refine ⟨fun other => ?_, fun other => ?_⟩ <;> rw [KeyedMap.lookup_erase_eq]
      · by_cases same : other = key
        · rw [if_pos same, same, Function.update_self, Option.getD_none]
        · rw [if_neg same, Function.update_of_ne same, tells.told]
      · split
        · simp
        · exact tells.positive other
    · rename_i more
      refine ⟨fun other => ?_, fun other => ?_⟩ <;> rw [KeyedMap.lookup_insert_eq]
      · by_cases same : other = key
        · rw [if_pos same, same, Function.update_self, Option.getD_some]
        · rw [if_neg same, Function.update_of_ne same, tells.told]
      · split
        · simpa using more
        · exact tells.positive other

/-- A kind is a key of the map exactly when one of it lives. -/
theorem Tells.held_iff {counts : HandleCounts κ} {number : κ → Nat} (tells : counts.Tells number)
    (key : κ) : (∃ count, counts.lookup key = some count) ↔ 0 < number key := by
  rw [← tells.told key]
  cases held : counts.lookup key with
  | none => simp
  | some count =>
    have positive := tells.positive key
    rw [held] at positive
    constructor
    · intro _
      exact Nat.pos_of_ne_zero fun none => positive (congrArg some none)
    · intro _
      exact ⟨count, rfl⟩

/-- The map is empty exactly when none of any kind lives. -/
theorem Tells.empty_iff {counts : HandleCounts κ} {number : κ → Nat}
    (tells : counts.Tells number) : counts.entries.isEmpty = true ↔ ∀ key, number key = 0 := by
  rw [List.isEmpty_iff]
  constructor
  · intro empty key
    by_contra some_
    obtain ⟨count, held⟩ := (tells.held_iff key).mpr (Nat.pos_of_ne_zero some_)
    have entry := (KeyedMap.mem_entries_iff _ _ _).mpr held
    rw [empty] at entry
    cases entry
  · intro none
    apply List.eq_nil_iff_forall_not_mem.mpr
    rintro ⟨key, count⟩ entry
    have lives := (tells.held_iff key).mp ⟨count, (KeyedMap.mem_entries_iff _ _ _).mp entry⟩
    exact absurd (none key) (Nat.ne_zero_of_lt lives)

end HandleCounts

end Ikigai
