import Ikigai.Representation

/-!
# Dynamic spaces

A space whose doors are rebuilt from a declaration while the kernel runs. A candidate is
read, built and checked with nothing held; what is in force changes under the state's lock,
all of it at once. How a declaration is parsed and built and the digest of a text are
parameters; the host's own check may object to any candidate at any time. The cuts that
follow a bind are the kernel's and are made where its runs are.
-/

namespace Ikigai

/-- The identity of a content. -/
abbrev ContentId := List UInt8

/-- Why a candidate declaration did not bind. -/
inductive DynamicRefusal where
  | unreadable (reason : Text)
  | declaration (reason : Text)
  | sealingLevel (node : Text)
  | check (reason : Text)
deriving DecidableEq

/-- What a dynamic space judges a candidate by. -/
structure Binder (δ : Type) where
  parse : Text → Except Text δ
  render : δ → Text
  digest : Text → ContentId
  build : δ → Except Text Unit
  sealingLevel : δ → Option Text

/-- A declaration as it reaches the space: a read that failed, its text, or an arrangement
already in hand. -/
inductive Candidate (δ : Type) where
  | unread (reason : Text) (digest : Option ContentId)
  | text (declaration : Text)
  | topology (declared : δ)

/-- What a dynamic space holds: the declaration its doors are built from, and its status. -/
structure DynamicState (δ : Type) where
  inner : δ
  inForce : Option ContentId
  installs : Nat
  installedAt : Option Time
  refusal : Option (DynamicRefusal × Option ContentId)

variable {δ : Type}

namespace Binder

/-- Core's refusals, in order: the build's, then a level that seals names. -/
def prepare (binder : Binder δ) (declared : δ) : Except DynamicRefusal Unit :=
  match binder.build declared with
  | .error reason => .error (.declaration reason)
  | .ok () =>
    match binder.sealingLevel declared with
    | some node => .error (.sealingLevel node)
    | none => .ok ()

/-- Core's refusals, then what the host's check objects to. -/
def judge (binder : Binder δ) (objection : Option Text) (declared : δ) :
    Except DynamicRefusal Unit :=
  match binder.prepare declared with
  | .error refusal => .error refusal
  | .ok () =>
    match objection with
    | some reason => .error (.check reason)
    | none => .ok ()

/-- The digest of a candidate's text, when there was text to digest. -/
def digestOf (binder : Binder δ) : Candidate δ → Option ContentId
  | .unread _ digest => digest
  | .text declaration => some (binder.digest declaration)
  | .topology declared => some (binder.digest (binder.render declared))

/-- The arrangement a candidate declares, if it may bind. -/
def verdict (binder : Binder δ) (objection : Option Text) :
    Candidate δ → Except DynamicRefusal δ
  | .unread reason _ => .error (.unreadable reason)
  | .text declaration =>
    match binder.parse declaration with
    | .error reason => .error (.declaration reason)
    | .ok declared => (binder.judge objection declared).map fun _ => declared
  | .topology declared => (binder.judge objection declared).map fun _ => declared

end Binder

namespace DynamicState

/-- A space starts empty: no declaration has bound. -/
def empty (inner : δ) : DynamicState δ := ⟨inner, none, 0, none, none⟩

/-- Record a refusal; the doors stay in force. -/
def refuse (state : DynamicState δ) (refusal : DynamicRefusal) (digest : Option ContentId) :
    DynamicState δ :=
  { state with refusal := some (refusal, digest) }

/-- Swap an arrangement in. -/
def swap (state : DynamicState δ) (declared : δ) (digest : Option ContentId)
    (now : Option Time) : DynamicState δ :=
  ⟨declared, digest, state.installs + 1, now, none⟩

/-- What one candidate does to the space. -/
def offered (binder : Binder δ) (objection : Option Text) (now : Option Time)
    (state : DynamicState δ) (candidate : Candidate δ) : DynamicState δ :=
  match binder.verdict objection candidate with
  | .error refusal => state.refuse refusal (binder.digestOf candidate)
  | .ok declared => state.swap declared (binder.digestOf candidate) now

/-- The digest in force is that of a candidate that was accepted and whose arrangement is
the one whose doors resolve; before any, the space is empty. -/
def Accountable (binder : Binder δ) (start : δ) (state : DynamicState δ) : Prop :=
  (state.inForce = none ∧ state.installs = 0 ∧ state.inner = start) ∨
    ∃ candidate, binder.verdict none candidate = .ok state.inner ∧
      binder.digestOf candidate = state.inForce ∧ state.inForce.isSome = true

theorem empty_accountable (binder : Binder δ) (start : δ) :
    (empty start).Accountable binder start :=
  .inl ⟨rfl, rfl, rfl⟩

/-- A candidate with an arrangement had text to digest. -/
theorem digest_of_accepted (binder : Binder δ) (objection : Option Text)
    (candidate : Candidate δ) (declared : δ)
    (accepted : binder.verdict objection candidate = .ok declared) :
    (binder.digestOf candidate).isSome = true := by
  cases candidate with
  | unread reason digest => cases accepted
  | text declaration => rfl
  | topology declared => rfl

/-- What is accepted was not objected to. -/
theorem accepted_unopposed (binder : Binder δ) (objection : Option Text)
    (candidate : Candidate δ) (declared : δ)
    (accepted : binder.verdict objection candidate = .ok declared) : objection = none := by
  have judged : ∀ declared' : δ, (binder.judge objection declared').map (fun _ => declared') =
      .ok declared → objection = none := by
    intro declared' passed
    unfold Binder.judge at passed
    cases prepared : binder.prepare declared' with
    | error refusal =>
      rw [prepared] at passed
      cases passed
    | ok =>
      cases objection with
      | none => rfl
      | some reason =>
        rw [prepared] at passed
        cases passed
  cases candidate with
  | unread reason digest => cases accepted
  | text declaration =>
    unfold Binder.verdict at accepted
    cases parsed : binder.parse declaration with
    | error reason =>
      simp only [parsed] at accepted
      cases accepted
    | ok declared' =>
      simp only [parsed] at accepted
      exact judged declared' accepted
  | topology declared' => exact judged declared' accepted

/-- Every candidate, accepted or refused, keeps the space accountable. -/
theorem offered_accountable (binder : Binder δ) (start : δ) (objection : Option Text)
    (now : Option Time) (state : DynamicState δ) (candidate : Candidate δ)
    (accountable : state.Accountable binder start) :
    (state.offered binder objection now candidate).Accountable binder start := by
  unfold offered
  cases verdict : binder.verdict objection candidate with
  | error refusal => exact accountable
  | ok declared =>
    obtain rfl := accepted_unopposed binder objection candidate declared verdict
    exact .inr ⟨candidate, verdict, rfl, digest_of_accepted binder none candidate declared verdict⟩

/-- A refused candidate leaves all but the refusal as it was. -/
theorem refused_unchanged (binder : Binder δ) (objection : Option Text) (now : Option Time)
    (state : DynamicState δ) (candidate : Candidate δ) (refusal : DynamicRefusal)
    (refused : binder.verdict objection candidate = .error refusal) :
    state.offered binder objection now candidate =
      { state with refusal := some (refusal, binder.digestOf candidate) } := by
  simp only [offered, refused, refuse]

end DynamicState

end Ikigai
