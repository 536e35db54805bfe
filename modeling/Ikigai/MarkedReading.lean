import Mathlib

/-!
# Readers that mark what they read

A reader of a store marks each key it looks up, and may refuse because of what it has not
marked. It is a function of its marks that either refuses or gives a value and its marks
afterwards. Marks are only ever added, and a mark does no harm: whatever a reader accepts,
it accepts with more marked, and reads the same.
-/

namespace Ikigai

/-- A reader, by its marks. -/
abbrev MarkedReading (κ ε α : Type) := StateT (List κ) (Except ε) α

namespace MarkedReading

variable {κ ε α β : Type}

/-- Mark a key. -/
def mark (key : κ) : MarkedReading κ ε Unit := modify (key :: ·)

/-- Refuse by what is marked so far. -/
def refuseBy (check : List κ → Option ε) : MarkedReading κ ε Unit := fun marks =>
  match check marks with
  | some error => .error error
  | none => .ok ((), marks)

/-- A check that passes leaves the marks. -/
theorem run_refuse_by_none (check : List κ → Option ε) (marks : List κ)
    (passed : check marks = none) : (refuseBy check).run marks = .ok ((), marks) := by
  rw [StateT.run, refuseBy, passed]

/-- A check that fails refuses with its error. -/
theorem run_refuse_by_some (check : List κ → Option ε) (marks : List κ) (error : ε)
    (stopped : check marks = some error) : (refuseBy check).run marks = .error error := by
  rw [StateT.run, refuseBy, stopped]

/-- One reading after another goes on with the marks the first left. -/
theorem run_bind (reading : MarkedReading κ ε α) (rest : α → MarkedReading κ ε β)
    (marks : List κ) :
    (reading >>= rest).run marks =
      (reading.run marks).bind fun (value, after) => (rest value).run after := rfl

/-- What is read by two readings is read by the first and then by the second. -/
theorem run_bind_ok {reading : MarkedReading κ ε α} {rest : α → MarkedReading κ ε β}
    {marks after : List κ} {value : β} (read : (reading >>= rest).run marks = .ok (value, after)) :
    ∃ first middle, reading.run marks = .ok (first, middle) ∧
      (rest first).run middle = .ok (value, after) := by
  rw [run_bind] at read
  cases here : reading.run marks with
  | error error =>
    rw [here] at read
    cases read
  | ok went =>
    rw [here] at read
    exact ⟨went.1, went.2, rfl, read⟩

/-- What two readings refuse the first refuses, or it reads and the second refuses. -/
theorem run_bind_error {reading : MarkedReading κ ε α} {rest : α → MarkedReading κ ε β}
    {marks : List κ} {error : ε} (refused : (reading >>= rest).run marks = .error error) :
    reading.run marks = .error error ∨
      ∃ first middle, reading.run marks = .ok (first, middle) ∧
        (rest first).run middle = .error error := by
  rw [run_bind] at refused
  cases here : reading.run marks with
  | error other =>
    rw [here] at refused
    cases refused
    exact .inl rfl
  | ok went =>
    rw [here] at refused
    exact .inr ⟨went.1, went.2, rfl, refused⟩

/-- What is accepted is accepted with more marked, and what is refused is refused with an
error of a kind. -/
structure Steady (kind : ε → Prop) (reading : MarkedReading κ ε α) : Prop where
  accepts : ∀ marks value after, reading.run marks = .ok (value, after) →
    ∀ more, marks ⊆ more → ∃ further, reading.run more = .ok (value, further) ∧ after ⊆ further
  refuses : ∀ marks error, reading.run marks = .error error → kind error

namespace Steady

variable {kind : ε → Prop}

/-- A value without a reading is steady. -/
theorem pure (value : α) : Steady kind (pure value : MarkedReading κ ε α) where
  accepts := by
    intro marks read after went more covers
    obtain ⟨rfl, rfl⟩ := Prod.mk.inj (Except.ok.inj went)
    exact ⟨more, rfl, covers⟩
  refuses _ _ := nofun

/-- A refusal of the kind is steady. -/
theorem throw (error : ε) (isKind : kind error) :
    Steady kind (throw error : MarkedReading κ ε α) where
  accepts _ _ _ := nofun
  refuses := by
    intro marks other refused
    exact Except.error.inj refused ▸ isKind

/-- Marking alone is steady. -/
theorem mark (key : κ) : Steady kind (mark key : MarkedReading κ ε Unit) where
  accepts := by
    intro marks value after went more covers
    obtain ⟨-, rfl⟩ := Prod.mk.inj (Except.ok.inj went)
    exact ⟨key :: more, rfl, List.cons_subset_cons key covers⟩
  refuses _ _ := nofun

/-- A steady reading followed by steady ones is steady. -/
theorem bind {reading : MarkedReading κ ε α} {rest : α → MarkedReading κ ε β}
    (first : Steady kind reading) (further : ∀ value, Steady kind (rest value)) :
    Steady kind (reading >>= rest) where
  accepts := by
    intro marks value after went more covers
    obtain ⟨read, middle, here, there⟩ := run_bind_ok went
    obtain ⟨middle', here', covers'⟩ := first.accepts marks read middle here more covers
    obtain ⟨after', there', covered⟩ :=
      (further read).accepts middle value after there middle' covers'
    refine ⟨after', ?_, covered⟩
    rw [run_bind, here']
    exact there'
  refuses := by
    intro marks error refused
    rcases run_bind_error refused with here | ⟨read, middle, -, there⟩
    · exact first.refuses marks error here
    · exact (further read).refuses middle error there

/-- A change to what is read keeps it steady. -/
theorem map {reading : MarkedReading κ ε α} (steady : Steady kind reading) (f : α → β) :
    Steady kind (f <$> reading) := by
  rw [map_eq_pure_bind]
  exact steady.bind fun value => pure (f value)

/-- A choice between steady readings is steady. -/
theorem ite {condition : Prop} [Decidable condition] {reading other : MarkedReading κ ε α}
    (first : Steady kind reading) (second : Steady kind other) :
    Steady kind (if condition then reading else other) := by
  split
  · exact first
  · exact second

/-- A check that more marks only ease. -/
theorem refuseBy (check : List κ → Option ε)
    (eased : ∀ marks more, marks ⊆ more → check marks = none → check more = none)
    (isKind : ∀ marks error, check marks = some error → kind error) :
    Steady kind (refuseBy check) where
  accepts := by
    intro marks value after went more covers
    cases passed : check marks with
    | some error =>
      rw [run_refuse_by_some check marks error passed] at went
      cases went
    | none =>
      rw [run_refuse_by_none check marks passed] at went
      obtain ⟨-, rfl⟩ := Prod.mk.inj (Except.ok.inj went)
      exact ⟨more, run_refuse_by_none check more (eased marks more covers passed), covers⟩
  refuses := by
    intro marks error refused
    cases stopped : check marks with
    | none =>
      rw [run_refuse_by_none check marks stopped] at refused
      cases refused
    | some other =>
      rw [run_refuse_by_some check marks other stopped] at refused
      exact Except.error.inj refused ▸ isKind marks other stopped

/-- Read one thing after another. -/
theorem mapM {read : α → MarkedReading κ ε β} (each : ∀ item, Steady kind (read item))
    (items : List α) : Steady kind (items.mapM read) := by
  induction items with
  | nil =>
    rw [List.mapM_nil]
    exact pure []
  | cons item rest ih =>
    rw [List.mapM_cons]
    exact (each item).bind fun value => ih.bind fun values => pure (value :: values)

end Steady

end MarkedReading

end Ikigai
