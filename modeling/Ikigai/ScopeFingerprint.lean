import Ikigai.Scope

/-!
# What a fingerprint determines

The bytes a chain feeds to the hash delimit themselves field by field. They
determine its severing, its corridors' identities in order, the names of its level
stack and, only when there is a level stack, how many of its corridors are
confined. Every length and number has to fit in the eight bytes it is written in.
-/

namespace Ikigai

universe u
variable {σ : Type u}

namespace Chain

/-- Every length and number the chain feeds to the hash fits in 64 bits. -/
structure Addressable (chain : Chain σ) : Prop where
  names : ∀ name, .named name ∈ chain.identities → Hashing.StrFits name
  numbers : ∀ number, .anonymous number ∈ chain.identities → Hashing.Fits number
  confined : Hashing.Fits chain.confined
  levels : ∀ level ∈ chain.levels, Hashing.StrFits level.name

def IdentityFits : CorridorIdentity → Prop
  | .named name => Hashing.StrFits name
  | .anonymous number => Hashing.Fits number

theorem feed_identity_delimits : Framing.Delimits IdentityFits feedIdentity := by
  intro left right after after' inLeft inRight same
  cases left with
  | named name =>
    cases right with
    | named other =>
      have fed : Hashing.feedStr name ++ after = Hashing.feedStr other ++ after' := by
        simpa [feedIdentity, Hashing.feedU8] using same
      obtain ⟨sameName, sameRest⟩ :=
        Hashing.feed_str_delimits name other after after' inLeft inRight fed
      exact ⟨by rw [sameName], sameRest⟩
    | anonymous other => simp [feedIdentity, Hashing.feedU8] at same
  | anonymous number =>
    cases right with
    | named other => simp [feedIdentity, Hashing.feedU8] at same
    | anonymous other =>
      have fed : Hashing.toLeBytes number ++ after = Hashing.toLeBytes other ++ after' := by
        simpa [feedIdentity, Hashing.feedU8] using same
      obtain ⟨sameNumber, sameRest⟩ :=
        Hashing.to_le_bytes_delimits number other after after' inLeft inRight fed
      exact ⟨by rw [sameNumber], sameRest⟩

/-- What follows the identities is nothing, or opens with the level stack's tag. -/
def Closes (after : List UInt8) : Prop := after = [] ∨ after.head? = some 3

theorem identity_distinct (identity : CorridorIdentity) (after rest : List UInt8)
    (closes : Closes after) : feedIdentity identity ++ rest ≠ after := by
  intro same
  rcases closes with rfl | tagged
  · cases identity <;> simp [feedIdentity, Hashing.feedU8] at same
  · rw [← same] at tagged
    cases identity <;> simp [feedIdentity, Hashing.feedU8] at tagged

theorem feed_levels_closes (chain : Chain σ) : Closes chain.feedLevels := by
  unfold feedLevels
  split
  · exact Or.inl rfl
  · exact Or.inr rfl

theorem identities_fit (chain : Chain σ) (fits : chain.Addressable) :
    ∀ identity ∈ chain.identities, IdentityFits identity := by
  intro identity inside
  cases identity with
  | named name => exact fits.names name inside
  | anonymous number => exact fits.numbers number inside

/-- The names of a level stack are recovered from what they feed. -/
theorem level_names_fed (left right : LevelPath σ)
    (inLeft : ∀ level ∈ left, Hashing.StrFits level.name)
    (inRight : ∀ level ∈ right, Hashing.StrFits level.name)
    (same : left.flatMap (fun level => Hashing.feedStr level.name) =
      right.flatMap (fun level => Hashing.feedStr level.name)) :
    left.map LevelCore.name = right.map LevelCore.name := by
  have named (path : LevelPath σ) : path.flatMap (fun level => Hashing.feedStr level.name) =
      (path.map LevelCore.name).flatMap Hashing.feedStr := by
    rw [List.flatMap_map]
  have spaced : (left.map LevelCore.name).flatMap Hashing.feedStr ++ [] =
      (right.map LevelCore.name).flatMap Hashing.feedStr ++ [] := by
    rw [← named left, ← named right, same]
  refine (Hashing.feed_str_delimits.flatMap (· = []) ?_ _ _ [] [] ?_ ?_ rfl rfl spaced).1
  · rintro item after rest rfl empty
    have width := congrArg List.length empty
    simp [Hashing.feedStr, Hashing.feedBytes, Hashing.to_le_bytes_length] at width
  · intro name inside
    obtain ⟨level, member, rfl⟩ := List.mem_map.mp inside
    exact inLeft level member
  · intro name inside
    obtain ⟨level, member, rfl⟩ := List.mem_map.mp inside
    exact inRight level member

/-- What the fed bytes determine of a chain. -/
structure AgreesWith (left right : Chain σ) : Prop where
  severed : left.severed = right.severed
  identities : left.identities = right.identities
  levels : left.levels.map LevelCore.name = right.levels.map LevelCore.name
  confined : left.levels ≠ [] → left.confined = right.confined

/-- The bytes two chains feed are equal only when the chains agree. The severing
byte comes first, the identities delimit themselves up to the level tag, and the
stack's fixed-width split count precedes its names. -/
theorem fed_determines (left right : Chain σ) (fits : left.Addressable)
    (fits' : right.Addressable) (same : left.fed = right.fed) : left.AgreesWith right := by
  unfold fed at same
  simp only [Hashing.feedU8, List.cons_append, List.nil_append, List.cons.injEq] at same
  obtain ⟨severing, rest⟩ := same
  have sameSevered : left.severed = right.severed := by
    cases heldLeft : left.severed <;> cases heldRight : right.severed <;>
      simp [heldLeft, heldRight] at severing ⊢
  obtain ⟨sameIdentities, sameLevels⟩ := feed_identity_delimits.flatMap Closes identity_distinct
    left.identities right.identities left.feedLevels right.feedLevels
    (identities_fit left fits) (identities_fit right fits')
    (feed_levels_closes left) (feed_levels_closes right) rest
  unfold feedLevels at sameLevels
  cases stackLeft : left.levels with
  | nil =>
    cases stackRight : right.levels with
    | nil =>
      exact ⟨sameSevered, sameIdentities, by rw [stackLeft, stackRight],
        fun present => absurd stackLeft present⟩
    | cons level outward => simp [stackLeft, stackRight, Hashing.feedU8] at sameLevels
  | cons level outward =>
    cases stackRight : right.levels with
    | nil => simp [stackLeft, stackRight, Hashing.feedU8] at sameLevels
    | cons other outward' =>
      rw [stackLeft, stackRight] at sameLevels
      simp only [List.isEmpty_cons, Bool.false_eq_true, if_false, Hashing.feedU8,
        List.cons_append, List.nil_append, List.cons.injEq, true_and] at sameLevels
      obtain ⟨sameSplit, sameNames⟩ := Hashing.to_le_bytes_delimits left.confined right.confined
        _ _ fits.confined fits'.confined sameLevels
      refine ⟨sameSevered, sameIdentities, ?_, fun _ => sameSplit⟩
      rw [stackLeft, stackRight]
      exact level_names_fed (level :: outward) (other :: outward')
        (stackLeft ▸ fits.levels) (stackRight ▸ fits'.levels) sameNames

end Chain

end Ikigai
