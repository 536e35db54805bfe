import Ikigai.Forwarding
import Ikigai.AliasViews
import Ikigai.Arrangement
import Ikigai.FloorMemo
import Ikigai.IssuePath
import Ikigai.LimitedNames
import Ikigai.Resolution
import Ikigai.SealedNames

/-!
# The faces of a forward

A forward is described by its target, which may be a forward in its turn. The Meta arm follows the
forwards through the issue path's own resolver, starting from an endpoint it has already reached.
Every other face follows them through the space that the walks over a kernel's doors run on. Both
stop after so many forwards, and the two descriptions are alike as long as the two resolvers see
alike and neither count runs out.
-/

namespace Ikigai

/-- What a name is seen as: what it resolves to describes itself, and what it forwards to. -/
abbrev Sight := Iri → Option (Description × Option Forward)

/-- What is seen, described by what its forward is. -/
def present (later : Iri → Option Description) (seen : Description × Option Forward) :
    Description :=
  match seen.2 with
  | none => seen.1
  | some forward => forward.project seen.1 (later forward.target)

/-- A name that forwards nowhere presents its own description. -/
theorem present_own (later : Iri → Option Description) (own : Description) :
    present later (own, none) = own :=
  rfl

/-- A name that forwards presents its own description, projected on what is seen further on. -/
theorem present_forward (later : Iri → Option Description) (own : Description)
    (forward : Forward) :
    present later (own, some forward) = forward.project own (later forward.target) :=
  rfl

/-- What a name is described as, following so many forwards. -/
def follow (sight : Sight) : Nat → Iri → Option Description
  | 0, name => (sight name).map (present fun _ => none)
  | left + 1, name => (sight name).map (present (follow sight left))

/-- The names that some forwards lead to from a name. -/
inductive Reaches (sight : Sight) : Nat → Iri → Iri → Prop where
  | here (name : Iri) : Reaches sight 0 name name
  | onward (forwards : Nat) (name last : Iri) (own : Description) (forward : Forward)
      (seen : sight name = some (own, some forward))
      (later : Reaches sight forwards forward.target last) :
      Reaches sight (forwards + 1) name last

/-- Two sights alike on the way from a name as far as so many forwards, beyond which the second
sees nothing. -/
structure AlikeFrom (sight other : Sight) (left : Nat) (name : Iri) : Prop where
  trail : ∀ forwards ≤ left, ∀ last, Reaches sight forwards name last → other last = sight last
  beyond : ∀ last, Reaches sight (left + 1) name last → other last = none

/-- Names seen alike, that forward alike, lead to names seen alike one step further. -/
theorem AlikeFrom.onward {sight other : Sight} {left : Nat} {name : Iri} {own : Description}
    {forward : Forward} (alike : AlikeFrom sight other (left + 1) name)
    (seen : sight name = some (own, some forward)) :
    AlikeFrom sight other left forward.target where
  trail forwards within last reaches :=
    alike.trail (forwards + 1) (Nat.succ_le_succ within) last
      (.onward forwards name last own forward seen reaches)
  beyond last reaches := alike.beyond last (.onward _ name last own forward seen reaches)

/-- What a name shows is presented alike where what it forwards to is. -/
theorem present_alike {sight other : Sight} {name : Iri}
    {onward onward' : Iri → Option Description} (same : other name = sight name)
    (targets : ∀ own forward, sight name = some (own, some forward) →
      onward' forward.target = onward forward.target) :
    (other name).map (present onward') = (sight name).map (present onward) := by
  rw [same]
  cases seen : sight name with
  | none => rfl
  | some found =>
    obtain ⟨own, forward⟩ := found
    cases forward with
    | none => rfl
    | some forward =>
      rw [Option.map_some, Option.map_some, present_forward, present_forward,
        targets own forward seen]

/-- Sights that are alike so far describe alike, whichever follows one forward more. -/
theorem follow_alike {sight other : Sight} {left : Nat} {name : Iri}
    (alike : AlikeFrom sight other left name) :
    follow other (left + 1) name = follow sight left name := by
  induction left generalizing name with
  | zero =>
    apply present_alike (alike.trail 0 (Nat.le_refl 0) name (.here name))
    intro own forward seen
    have ends := alike.beyond forward.target
      (.onward 0 name forward.target own forward seen (.here forward.target))
    rw [follow, ends]
    rfl
  | succ left ih =>
    apply present_alike (alike.trail 0 (Nat.zero_le _) name (.here name))
    intro own forward seen
    exact ih (alike.onward seen)

namespace Forward

/-- Declaring contracts leaves the summary. -/
theorem project_summary_some (forward : Forward) (own target : Description) :
    (forward.project own (some target)).summary = forward.summary target := by
  unfold project
  refine List.foldlRecOn (motive := fun described : Description =>
    described.summary = forward.summary target) _ _ rfl ?_
  intro described same verb _
  cases specFor target.actionSpecs verb with
  | none => exact same
  | some spec => exact same

/-- The summary of a forward that leads nowhere says so. -/
theorem project_summary_none (forward : Forward) (own : Description) :
    (forward.project own none).summary = own.summary ++ forward.resolvesToNothing :=
  rfl

/-- A forward's summary tells its target's. -/
theorem summary_injective (forward : Forward) {target other : Description}
    (same : forward.summary target = forward.summary other) : target.summary = other.summary := by
  have tails : (if target.summary.isEmpty then [] else ". ".toList ++ target.summary) =
      if other.summary.isEmpty then [] else ". ".toList ++ other.summary :=
    List.append_cancel_left same
  cases one : target.summary with
  | nil =>
    cases two : other.summary with
    | nil => rfl
    | cons c rest =>
      rw [one, two] at tails
      cases tails
  | cons c rest =>
    cases two : other.summary with
    | nil =>
      rw [one, two] at tails
      cases tails
    | cons c' rest' =>
      rw [one, two] at tails
      exact List.append_cancel_left tails

end Forward

/-- The summary of a description, if there is one. -/
def summaryOf (description : Option Description) : Option Text :=
  description.map Description.summary

/-- What the words of a view's own contract begin with. -/
def forwardsTo : Text := "Forwards to <".toList

/-- What a view is: its own contract says that it forwards, and its name holds no blank. -/
structure IsView (own : Description) (forward : Forward) : Prop where
  says_ : forwardsTo <+: own.summary
  unbroken : ' ' ∉ forward.name

/-- A view of an alias table is one, whatever chain it was made of, if its name holds no blank. -/
theorem ViewEndpoint.is_view (view : ViewEndpoint) {own : Description}
    (says_ : own.summary = view.summary) (unbroken : ' ' ∉ view.forward.name) :
    IsView own view.forward := by
  have begins : forwardsTo <+: view.summary :=
    ((List.prefix_append _ _).trans (List.prefix_append _ _)).trans (List.prefix_append _ _)
  exact ⟨says_ ▸ begins, unbroken⟩

/-- Texts that begin with a word each and a blank after it begin with the same word. -/
theorem words_of_append {word other rest rest' : Text} (unbroken : ' ' ∉ word)
    (unbroken' : ' ' ∉ other) (same : word ++ ' ' :: rest = other ++ ' ' :: rest') :
    rest = rest' := by
  rcases List.append_eq_append_iff.mp same with ⟨more, rfl, tail⟩ | ⟨more, rfl, tail⟩
  · cases more with
    | nil => exact (List.cons.inj tail).2
    | cons c more =>
      obtain ⟨rfl, _⟩ := List.cons.inj tail
      exact absurd (List.mem_append_right _ List.mem_cons_self) unbroken'
  · cases more with
    | nil => exact (List.cons.inj tail).2.symm
    | cons c more =>
      obtain ⟨rfl, _⟩ := List.cons.inj tail
      exact absurd (List.mem_append_right _ List.mem_cons_self) unbroken

/-- A view's summary begins with its name, whatever it leads to. -/
theorem Forward.summary_begins (forward : Forward) (target : Description) :
    ∃ later, forward.summary target = forward.name ++ (" = ".toList ++ later) := by
  unfold Forward.summary
  simp only [List.append_assoc]
  exact ⟨_, rfl⟩

/-- What a view says of itself is not what it says of a target. -/
theorem IsView.told_apart {own : Description} {forward : Forward} (view : IsView own forward)
    (target : Description) :
    (forward.project own none).summary ≠ (forward.project own (some target)).summary := by
  rw [Forward.project_summary_none, Forward.project_summary_some]
  intro same
  obtain ⟨rest, begins⟩ := view.says_
  obtain ⟨later, named⟩ := forward.summary_begins target
  rw [← begins, named, List.append_assoc] at same
  have tails := words_of_append (by decide : ' ' ∉ "Forwards".toList) view.unbroken same
  cases tails

/-- Projections of two views of one contract are told apart when their targets are. -/
theorem IsView.summary_of_project {own : Description} {forward : Forward} (view : IsView own forward)
    {target other : Option Description}
    (same : (forward.project own target).summary = (forward.project own other).summary) :
    summaryOf target = summaryOf other := by
  cases target with
  | none =>
    cases other with
    | none => rfl
    | some other => exact absurd same (view.told_apart other)
  | some target =>
    cases other with
    | none => exact absurd same.symm (view.told_apart target)
    | some other =>
      rw [Forward.project_summary_some, Forward.project_summary_some] at same
      exact congrArg some (forward.summary_injective same)

/-- What two sights show of one name is the same unless only one of them shows anything. -/
def Agrees (sight other : Option (Description × Option Forward)) : Prop :=
  sight = none ∨ other = none ∨ sight = other

/-- Two sights that agree give one summary of a name when its description does. -/
theorem Agrees.eq {sight other : Option (Description × Option Forward)} (agrees : Agrees sight other)
    {describe describe' : Description × Option Forward → Description}
    (same : summaryOf (sight.map describe) = summaryOf (other.map describe')) : sight = other := by
  cases one : sight with
  | none =>
    rw [one] at same
    cases two : other with
    | none => rfl
    | some found =>
      rw [two] at same
      cases same
  | some found =>
    cases two : other with
    | none =>
      rw [one, two] at same
      cases same
    | some found' =>
      rcases agrees with none_ | none_ | both
      · rw [one] at none_
        cases none_
      · rw [two] at none_
        cases none_
      · rw [← one, ← two, both]

/-- Nothing is followed exactly from a name that is not seen. -/
theorem follow_none_iff (sight : Sight) (left : Nat) (name : Iri) :
    follow sight left name = none ↔ sight name = none := by
  cases left <;> exact Option.map_eq_none_iff

/-- Sights that agree, over forwards that are views, describe alike only where they are alike. -/
theorem alike_of_follow {sight other : Sight} (agrees : ∀ name, Agrees (sight name) (other name))
    (views : ∀ name own forward, sight name = some (own, some forward) → IsView own forward)
    {left : Nat} {name : Iri}
    (same : summaryOf (follow sight left name) = summaryOf (follow other (left + 1) name)) :
    AlikeFrom sight other left name := by
  induction left generalizing name with
  | zero =>
    have seen := (agrees name).eq same
    constructor
    · intro forwards within last reaches
      cases reaches with
      | here => exact seen.symm
      | onward => exact absurd within (Nat.not_succ_le_zero _)
    · intro last reaches
      cases reaches with
      | onward _ _ _ own forward there later =>
        cases later with
        | here =>
          have there' : other name = some (own, some forward) := seen ▸ there
          rw [follow, follow, there, there'] at same
          have targets := (views name own forward there).summary_of_project (Option.some.inj same)
          cases ends : follow other 0 forward.target with
          | none => exact (follow_none_iff other 0 forward.target).mp ends
          | some found =>
            rw [ends] at targets
            cases targets
  | succ left ih =>
    have seen := (agrees name).eq same
    have further : ∀ own forward, sight name = some (own, some forward) →
        AlikeFrom sight other left forward.target := by
      intro own forward there
      have there' : other name = some (own, some forward) := seen ▸ there
      rw [follow, follow, there, there'] at same
      exact ih ((views name own forward there).summary_of_project (Option.some.inj same))
    constructor
    · intro forwards within last reaches
      cases reaches with
      | here => exact seen.symm
      | onward forwards _ _ own forward there later =>
        exact (further own forward there).trail forwards (Nat.le_of_succ_le_succ within) last later
    · intro last reaches
      cases reaches with
      | onward _ _ _ own forward there later => exact (further own forward there).beyond last later

namespace Kernel

variable {σ : Type} [Blake3] [Space σ]

/-- What a name is seen as in the space the walks run on, where the kernel's own operations stand
in front of the root. -/
def describedSight (kernel : Kernel σ) (forwards : Endpoint → Option Forward) : Sight := fun name =>
  match (kernelOp name).bind KernelOps.description with
  | some description => some (description, none)
  | none =>
    match Space.resolve kernel.root (Request.new .«meta» name) Scope.empty with
    | .hit hit =>
      if hit.endpoint.isLimiter then none
      else some (kernel.describe hit.endpoint, forwards hit.endpoint)
    | .miss => none

/-- What every walk describes a name as. -/
def probe (kernel : Kernel σ) (forwards : Endpoint → Option Forward) (name : Iri) :
    Option Description :=
  follow (kernel.describedSight forwards) maxForwards name

variable [IriSyntax]

/-- Whether an endpoint's own `Meta` is hidden. -/
def conceals (kernel : Kernel σ) (capability : Capability) (endpoint : Endpoint) : Bool :=
  (Floor.of (kernel.describe endpoint)).conceals .«meta» capability

/-- What a forward's target is seen as from the empty chain. -/
def forwardSight (kernel : Kernel σ) (forwards : Endpoint → Option Forward)
    (capability : Capability) : Sight := fun target =>
  match kernelOp target with
  | some op => (KernelOps.description op).map fun description => (description, none)
  | none =>
    match kernel.resolution (Request.new .«meta» target) Scope.empty with
    | .ok (.hit hit) =>
      if hit.endpoint.isLimiter || kernel.conceals capability hit.endpoint then none
      else some (kernel.describe hit.endpoint, forwards hit.endpoint)
    | .ok .miss => none
    | .error _ => none

/-- What a forward's target is described as, following so many forwards more. -/
def forwardTarget (kernel : Kernel σ) (forwards : Endpoint → Option Forward)
    (capability : Capability) (left : Nat) (target : Iri) : Option Description :=
  follow (kernel.forwardSight forwards capability) left target

/-- The description the Meta arm renders of an endpoint. -/
def metaDescription (kernel : Kernel σ) (forwards : Endpoint → Option Forward)
    (capability : Capability) (endpoint : Endpoint) : Description :=
  present (kernel.forwardTarget forwards capability maxForwards)
    (kernel.describe endpoint, forwards endpoint)

/-- The endpoint the Meta arm describes for a name: what the issue path found under it. -/
def metaSight (kernel : Kernel σ) (forwards : Endpoint → Option Forward)
    (capability : Capability) : Sight := fun name =>
  match kernel.route (Request.new .«meta» name) 0 with
  | .refused _ => none
  | .operation op _ => (KernelOps.description op).map fun description => (description, none)
  | .space request hop =>
    match kernel.found request hop Scope.empty with
    | .door _ _ _ hit =>
      if kernel.conceals capability hit.endpoint then none
      else some (kernel.describe hit.endpoint, forwards hit.endpoint)
    | .refused _ => none
    | .missed => none
    | .limited _ => none

/-- What the Meta arm describes a name as. -/
def metaFace (kernel : Kernel σ) (forwards : Endpoint → Option Forward) (capability : Capability)
    (name : Iri) : Option Description :=
  match kernel.route (Request.new .«meta» name) 0 with
  | .refused _ => none
  | .operation op _ => KernelOps.description op
  | .space request hop =>
    match kernel.found request hop Scope.empty with
    | .door _ _ _ hit =>
      if kernel.conceals capability hit.endpoint then none
      else some (kernel.metaDescription forwards capability hit.endpoint)
    | .refused _ => none
    | .missed => none
    | .limited _ => none

/-- The face that Meta shows of a name is the one it sees, presented. -/
theorem meta_face_eq (kernel : Kernel σ) (forwards : Endpoint → Option Forward)
    (capability : Capability) (name : Iri) :
    kernel.metaFace forwards capability name =
      (kernel.metaSight forwards capability name).map
        (present (follow (kernel.forwardSight forwards capability) maxForwards)) := by
  unfold metaFace metaSight
  cases kernel.route (Request.new .«meta» name) 0 with
  | refused error => rfl
  | operation op request =>
    dsimp only
    cases KernelOps.description op <;> rfl
  | space request hop =>
    dsimp only
    cases kernel.found request hop Scope.empty with
    | door _ _ _ hit =>
      dsimp only
      split <;> rfl
    | refused error => rfl
    | missed => rfl
    | limited asked => rfl

/-- A door that the root answers a name by. -/
def RootDoor (kernel : Kernel σ) (name : Iri) (hit : Resolved σ) : Prop :=
  Space.resolve kernel.root (Request.new .«meta» name) Scope.empty = .hit hit ∧
    hit.endpoint.isLimiter = false

/-- A stream builtin that a capability is shown under a name. -/
def BuiltinDoor (kernel : Kernel σ) (capability : Capability) (name : Iri) (hit : Resolved σ) :
    Prop :=
  firstBinding name kernel.streams = .hit hit ∧ hit.endpoint.isLimiter = false ∧
    kernel.conceals capability hit.endpoint = false

/-- No seal refuses a hit under a name. -/
def Unsealed (kernel : Kernel σ) (name : Iri) (hit : Resolved σ) : Prop :=
  admitHit (.hit hit) (Request.new .«meta» name) kernel.seals = .ok (.hit hit)

/-- A target that the Meta arm sees as the walks do. -/
inductive TargetAlike (kernel : Kernel σ) (forwards : Endpoint → Option Forward)
    (capability : Capability) (target : Iri) : Prop where
  /-- An operation that the kernel has. -/
  | operation (op : Text) (own : Description) (named : kernelOp target = some op)
      (described : KernelOps.description op = some own)
  /-- A name that the root answers by a door, which no seal refuses and which is not hidden. -/
  | bound (hit : Resolved σ) (outside : kernelOp target = none)
      (unstreamed : isStream target = false) (door : kernel.RootDoor target hit)
      (unsealed : kernel.Unsealed target hit)
      (shown : kernel.conceals capability hit.endpoint = false)
  /-- A name that the root answers by no door, nor a stream builtin. -/
  | unbound (unknown : (kernelOp target).bind KernelOps.description = none)
      (rootless : ∀ hit, ¬kernel.RootDoor target hit)
      (builtinless : kernelOp target = none → isStream target = true →
        ∀ hit, ¬kernel.BuiltinDoor capability target hit)
  /-- A name of a stream builtin that the root answers by a door of the same contract. -/
  | builtin (hit hit' : Resolved σ) (outside : kernelOp target = none)
      (streamed : isStream target = true) (door : kernel.RootDoor target hit)
      (door' : kernel.BuiltinDoor capability target hit')
      (described : kernel.describe hit.endpoint = kernel.describe hit'.endpoint)
      (forwarded : forwards hit.endpoint = forwards hit'.endpoint)

/-- A target that the Meta arm does not see: an operation the kernel has not, a name of the stream
builtins that none of them answers, or a name that the root answers by no door, by one that a
seal refuses or by one that is hidden. -/
inductive TargetUnseen (kernel : Kernel σ) (capability : Capability) (target : Iri) : Prop where
  | operation (op : Text) (named : kernelOp target = some op)
      (undescribed : KernelOps.description op = none)
  | builtin (outside : kernelOp target = none) (streamed : isStream target = true)
      (builtinless : ∀ hit, ¬kernel.BuiltinDoor capability target hit)
  | unbound (outside : kernelOp target = none) (unstreamed : isStream target = false)
      (hidden : ∀ hit, kernel.RootDoor target hit → kernel.Unsealed target hit →
        kernel.conceals capability hit.endpoint = true)

/-- The Meta arm's door under a name that the kernel's table leads to: no reported canonical of it
is refused. -/
def IssuedDoor (kernel : Kernel σ) (capability : Capability) (name : Iri) (hit : Resolved σ) :
    Prop :=
  kernel.resolution (Request.new .«meta» name) Scope.empty = .ok (.hit hit) ∧
    hit.endpoint.isLimiter = false ∧ kernel.conceals capability hit.endpoint = false ∧
    ∀ canonical, hit.canonical = some canonical →
      isStream canonical = false ∧ kernelOp canonical = none

/-- A name that the Meta arm, asked for it, sees as the walks do. -/
inductive FirstAlike (kernel : Kernel σ) (forwards : Endpoint → Option Forward)
    (capability : Capability) (name : Iri) : Prop where
  /-- The kernel's table leaves it, and no space reports a reserved canonical of it. -/
  | unrenamed (kept : kernel.canonicalize name = .ok none)
      (alike : kernel.TargetAlike forwards capability name)
      (reported : kernelOp name = none → isStream name = false → ∀ hit canonical,
        kernel.RootDoor name hit → hit.canonical = some canonical →
          isStream canonical = false ∧ kernelOp canonical = none)
  /-- The table rewrites it, and the root answers it by a door of the contract that is found under
  the name it is rewritten to. -/
  | renamed (hop : AliasHop) (hit hit' : Resolved σ)
      (moved : kernel.canonicalize name = .ok (some hop)) (outside : kernelOp hop.canonical = none)
      (door : kernel.RootDoor name hit) (door' : kernel.IssuedDoor capability hop.canonical hit')
      (described : kernel.describe hit.endpoint = kernel.describe hit'.endpoint)
      (forwarded : forwards hit.endpoint = forwards hit'.endpoint)
  /-- The table rewrites it to an operation, and the root answers it by a door of that contract. -/
  | operation (hop : AliasHop) (op : Text) (hit : Resolved σ)
      (moved : kernel.canonicalize name = .ok (some hop)) (named : kernelOp hop.canonical = some op)
      (door : kernel.RootDoor name hit)
      (described : KernelOps.description op = some (kernel.describe hit.endpoint))
      (forwardless : forwards hit.endpoint = none)
  /-- The table rewrites it, and neither name is answered by a door. -/
  | unbound (hop : AliasHop) (moved : kernel.canonicalize name = .ok (some hop))
      (rootless : ∀ hit, ¬kernel.RootDoor name hit)
      (unknown : (kernelOp hop.canonical).bind KernelOps.description = none)
      (unissued : kernelOp hop.canonical = none →
        ∀ hit, ¬kernel.IssuedDoor capability hop.canonical hit)
  /-- The table refuses it, and the root answers it by no door. -/
  | refused (error : Error) (refuses : kernel.canonicalize name = .error error)
      (rootless : ∀ hit, ¬kernel.RootDoor name hit)

/-- So many forwards, each of a door that the root answers, lead from a name to another. -/
inductive Forwarded (kernel : Kernel σ) (forwards : Endpoint → Option Forward) :
    Nat → Iri → Iri → Prop where
  | here (name : Iri) : Forwarded kernel forwards 0 name name
  | onward (hops : Nat) (name last : Iri) (hit : Resolved σ) (forward : Forward)
      (unknown : (kernelOp name).bind KernelOps.description = none)
      (door : kernel.RootDoor name hit) (says_ : forwards hit.endpoint = some forward)
      (later : Forwarded kernel forwards hops forward.target last) :
      Forwarded kernel forwards (hops + 1) name last

/-- The way from a name on which both faces see alike: the name itself, every name that one
forward to eight lead to, and nothing nine lead to. -/
structure FacesAlike (kernel : Kernel σ) (forwards : Endpoint → Option Forward)
    (capability : Capability) (name : Iri) : Prop where
  first : kernel.FirstAlike forwards capability name
  trail : ∀ hops, 1 ≤ hops → hops ≤ maxForwards → ∀ last,
    kernel.Forwarded forwards hops name last → kernel.TargetAlike forwards capability last
  beyond : ∀ last, kernel.Forwarded forwards (maxForwards + 1) name last →
    kernel.TargetUnseen capability last

/-- A kernel whose forwarders are views of alias tables, their names without a blank, whose root
answers no name of the stream builtins, and whose own table leaves a name as it is. -/
structure Plainly (kernel : Kernel σ) (forwards : Endpoint → Option Forward) (name : Iri) :
    Prop where
  views : ∀ endpoint forward, forwards endpoint = some forward →
    ∃ view : ViewEndpoint, view.forward = forward ∧
      (kernel.describe endpoint).summary = view.summary ∧ ' ' ∉ forward.name
  unstreamed : ∀ target, isStream target = true →
    Space.resolve kernel.root (Request.new .«meta» target) Scope.empty = .miss
  unrenamed : kernel.canonicalize name = .ok none

variable {kernel : Kernel σ} {forwards : Endpoint → Option Forward} {capability : Capability}

omit [IriSyntax] in
/-- A walk sees an operation that the kernel has. -/
theorem described_sight_operation {target : Iri} {own : Description}
    (known : (kernelOp target).bind KernelOps.description = some own) :
    kernel.describedSight forwards target = some (own, none) := by
  rw [describedSight, known]

omit [IriSyntax] in
/-- Past the kernel's own operations a walk sees what the root resolves to. -/
theorem described_sight_root {target : Iri}
    (unknown : (kernelOp target).bind KernelOps.description = none) :
    kernel.describedSight forwards target =
      match Space.resolve kernel.root (Request.new .«meta» target) Scope.empty with
      | .hit hit =>
        if hit.endpoint.isLimiter then none
        else some (kernel.describe hit.endpoint, forwards hit.endpoint)
      | .miss => none := by
  rw [describedSight, unknown]

omit [IriSyntax] in
/-- It sees a door by the door's contract. -/
theorem described_sight_door {target : Iri} {hit : Resolved σ}
    (unknown : (kernelOp target).bind KernelOps.description = none)
    (door : kernel.RootDoor target hit) :
    kernel.describedSight forwards target =
      some (kernel.describe hit.endpoint, forwards hit.endpoint) := by
  rw [described_sight_root unknown, door.1]
  simp only [door.2, Bool.false_eq_true, if_false]

omit [IriSyntax] in
/-- It sees nothing where the root answers by no door. -/
theorem described_sight_none_iff {target : Iri}
    (unknown : (kernelOp target).bind KernelOps.description = none) :
    kernel.describedSight forwards target = none ↔ ∀ hit, ¬kernel.RootDoor target hit := by
  constructor
  · intro unseen hit door
    rw [described_sight_door unknown door] at unseen
    cases unseen
  · intro rootless
    rw [described_sight_root unknown]
    cases resolved : Space.resolve kernel.root (Request.new .«meta» target) Scope.empty with
    | miss => rfl
    | hit hit =>
      cases limits : hit.endpoint.isLimiter with
      | true => simp only [limits, if_true]
      | false => exact absurd ⟨resolved, limits⟩ (rootless hit)

omit [IriSyntax] in
/-- Outside the streams Meta resolves a name at the root. -/
theorem resolution_root {target : Iri} (plain : isStream target = false) :
    kernel.resolution (Request.new .«meta» target) Scope.empty =
      admitHit (Space.resolve kernel.root (Request.new .«meta» target) Scope.empty)
        (Request.new .«meta» target) kernel.seals := by
  have other : isStream (Request.new .«meta» target).target = false := plain
  rw [resolution, other]
  rfl

omit [IriSyntax] in
/-- Within them it resolves a name among the builtin streams. -/
theorem resolution_builtin {target : Iri} (streamed : isStream target = true) :
    kernel.resolution (Request.new .«meta» target) Scope.empty =
      .ok (firstBinding target kernel.streams) := by
  have named : isStream (Request.new .«meta» target).target = true := streamed
  rw [resolution, named]
  rfl

/-- The Meta arm sees an operation as the kernel describes it. -/
theorem forward_sight_operation {target : Iri} {op : Text} (named : kernelOp target = some op) :
    kernel.forwardSight forwards capability target =
      (KernelOps.description op).map fun description => (description, none) := by
  rw [forwardSight, named]

/-- It sees a stream builtin, if it is shown one. -/
theorem forward_sight_builtin {target : Iri} {hit : Resolved σ} (outside : kernelOp target = none)
    (streamed : isStream target = true) (door : kernel.BuiltinDoor capability target hit) :
    kernel.forwardSight forwards capability target =
      some (kernel.describe hit.endpoint, forwards hit.endpoint) := by
  rw [forwardSight, outside]
  dsimp only
  rw [resolution_builtin streamed, door.1]
  simp only [door.2.1, door.2.2, Bool.or_self, Bool.false_eq_true, if_false]

/-- A target that no seal refuses and that is not hidden is seen by its contract. -/
theorem forward_sight_admitted {target : Iri} {hit : Resolved σ} (outside : kernelOp target = none)
    (unstreamed : isStream target = false) (door : kernel.RootDoor target hit)
    (unsealed : kernel.Unsealed target hit)
    (shown : kernel.conceals capability hit.endpoint = false) :
    kernel.forwardSight forwards capability target =
      some (kernel.describe hit.endpoint, forwards hit.endpoint) := by
  rw [forwardSight, outside]
  dsimp only
  rw [resolution_root unstreamed, door.1, unsealed]
  simp only [door.2, shown, Bool.or_self, Bool.false_eq_true, if_false]

/-- The Meta arm sees nothing at exactly the targets it does not see. -/
theorem forward_sight_none_iff (target : Iri) :
    kernel.forwardSight forwards capability target = none ↔
      kernel.TargetUnseen capability target := by
  constructor
  · intro unseen
    cases named : kernelOp target with
    | some op =>
      rw [forward_sight_operation named, Option.map_eq_none_iff] at unseen
      exact .operation op named unseen
    | none =>
      cases streamed : isStream target with
      | true =>
        refine .builtin named streamed fun hit door => ?_
        rw [forward_sight_builtin named streamed door] at unseen
        cases unseen
      | false =>
        refine .unbound named streamed fun hit door unsealed => ?_
        by_contra shown
        rw [forward_sight_admitted named streamed door unsealed (by simpa using shown)] at unseen
        cases unseen
  · intro unseen
    cases unseen with
    | operation op named undescribed =>
      rw [forward_sight_operation named, undescribed, Option.map_none]
    | builtin outside streamed builtinless =>
      rw [forwardSight, outside]
      dsimp only
      rw [resolution_builtin streamed]
      cases resolved : firstBinding target kernel.streams with
      | miss => rfl
      | hit hit =>
        have closed : (hit.endpoint.isLimiter || kernel.conceals capability hit.endpoint) = true := by
          by_contra shut
          rw [Bool.not_eq_true, Bool.or_eq_false_iff] at shut
          exact builtinless hit ⟨resolved, shut⟩
        simp only [closed, if_true]
    | unbound outside unstreamed hidden =>
      rw [forwardSight, outside]
      dsimp only
      rw [resolution_root unstreamed]
      cases checked : admitHit (Space.resolve kernel.root (Request.new .«meta» target) Scope.empty)
          (Request.new .«meta» target) kernel.seals with
      | error breach => rfl
      | ok admitted =>
        have same := admit_hit_same _ admitted _ _ checked
        cases admitted with
        | miss => rfl
        | hit hit =>
          have closed : (hit.endpoint.isLimiter || kernel.conceals capability hit.endpoint) = true := by
            rw [Bool.or_eq_true]
            cases limits : hit.endpoint.isLimiter with
            | true => exact .inl rfl
            | false =>
              refine .inr (hidden hit ⟨same.symm, limits⟩ ?_)
              rw [← same] at checked
              exact checked
          simp only [closed, if_true]

/-- A target is seen alike by both faces exactly where it is told to be. -/
theorem forward_sight_alike_iff (target : Iri) :
    kernel.forwardSight forwards capability target = kernel.describedSight forwards target ↔
      kernel.TargetAlike forwards capability target := by
  constructor
  · intro same
    cases known : (kernelOp target).bind KernelOps.description with
    | some own =>
      obtain ⟨op, named, described⟩ := Option.bind_eq_some_iff.mp known
      exact .operation op own named described
    | none =>
      by_cases rootless : ∀ hit, ¬kernel.RootDoor target hit
      · refine .unbound known rootless fun outside streamed hit door => ?_
        rw [(described_sight_none_iff known).mpr rootless,
          forward_sight_builtin outside streamed door] at same
        cases same
      · obtain ⟨hit, door⟩ := not_forall_not.mp rootless
        rw [described_sight_door known door] at same
        have seen : ¬kernel.TargetUnseen capability target := by
          intro unseen
          rw [(forward_sight_none_iff target).mpr unseen] at same
          cases same
        have outside : kernelOp target = none := by
          cases named : kernelOp target with
          | none => rfl
          | some op =>
            rw [named] at known
            exact absurd (.operation op named known) seen
        cases streamed : isStream target with
        | true =>
          by_cases builtinless : ∀ hit, ¬kernel.BuiltinDoor capability target hit
          · exact absurd (.builtin outside streamed builtinless) seen
          · obtain ⟨hit', door'⟩ := not_forall_not.mp builtinless
            rw [forward_sight_builtin outside streamed door'] at same
            obtain ⟨described, forwarded⟩ := Prod.mk.inj (Option.some.inj same)
            exact .builtin hit hit' outside streamed door door' described.symm forwarded.symm
        | false =>
          have open' : ∃ hit, kernel.RootDoor target hit ∧ kernel.Unsealed target hit ∧
              kernel.conceals capability hit.endpoint = false := by
            by_contra hidden
            refine seen (.unbound outside streamed fun hit door unsealed => ?_)
            by_contra shown
            exact hidden ⟨hit, door, unsealed, by simpa using shown⟩
          obtain ⟨hit, door, unsealed, shown⟩ := open'
          exact .bound hit outside streamed door unsealed shown
  · intro alike
    cases alike with
    | operation op own named described =>
      rw [forward_sight_operation named, described,
        described_sight_operation (by rw [named, Option.bind_some, described])]
      rfl
    | bound hit outside unstreamed door unsealed shown =>
      rw [forward_sight_admitted outside unstreamed door unsealed shown,
        described_sight_door (by rw [outside, Option.bind_none]) door]
    | unbound unknown rootless builtinless =>
      rw [(described_sight_none_iff unknown).mpr rootless, forward_sight_none_iff]
      cases named : kernelOp target with
      | some op =>
        rw [named] at unknown
        exact .operation op named unknown
      | none =>
        cases streamed : isStream target with
        | true => exact .builtin named streamed (builtinless named streamed)
        | false => exact .unbound named streamed fun hit door _ => absurd door (rootless hit)
    | builtin hit hit' outside streamed door door' described forwarded =>
      rw [forward_sight_builtin outside streamed door',
        described_sight_door (by rw [outside, Option.bind_none]) door, described, forwarded]

omit [IriSyntax] [Blake3] [Space σ] in
/-- Being rewritten to a name is told of exactly where the name is reserved. -/
theorem rewritten_into_none_iff (request : Request) (canonical : Iri) :
    rewrittenInto request canonical = none ↔
      isStream canonical = false ∧ kernelOp canonical = none := by
  unfold rewrittenInto
  cases isStream canonical <;> cases kernelOp canonical <;> simp

/-- The Meta arm goes on from the name that the kernel's table leads to. -/
theorem meta_sight_led {name : Iri} {hop : Option AliasHop}
    (led : kernel.canonicalize name = .ok hop) {target : Iri}
    (onward : renamed (Request.new .«meta» name) hop = Request.new .«meta» target) :
    kernel.metaSight forwards capability name =
      match kernelOp target with
      | some op => (KernelOps.description op).map fun description => (description, none)
      | none =>
        match kernel.found (Request.new .«meta» target) hop Scope.empty with
        | .door _ _ _ hit =>
          if kernel.conceals capability hit.endpoint then none
          else some (kernel.describe hit.endpoint, forwards hit.endpoint)
        | .refused _ => none
        | .missed => none
        | .limited _ => none := by
  have routed : kernel.route (Request.new .«meta» name) 0 =
      match kernelOp target with
      | some op => .operation op (Request.new .«meta» target)
      | none => .space (Request.new .«meta» target) hop := by
    have asked : kernel.canonicalize (Request.new .«meta» name).target = .ok hop := led
    rw [route, asked]
    dsimp only
    rw [onward]
    rfl
  unfold metaSight
  rw [routed]
  cases kernelOp target <;> rfl

/-- It sees a door that it is issued to. -/
theorem meta_sight_issued {name : Iri} {hop : Option AliasHop}
    (led : kernel.canonicalize name = .ok hop) {target : Iri}
    (onward : renamed (Request.new .«meta» name) hop = Request.new .«meta» target)
    (outside : kernelOp target = none) {hit : Resolved σ}
    (door : kernel.IssuedDoor capability target hit) :
    kernel.metaSight forwards capability name =
      some (kernel.describe hit.endpoint, forwards hit.endpoint) := by
  obtain ⟨resolved, real, shown, free⟩ := door
  have unrefused : hit.canonical.bind (rewrittenInto (Request.new .«meta» target)) = none := by
    rw [Option.bind_eq_none_iff]
    exact fun canonical reported => (rewritten_into_none_iff _ canonical).mpr (free canonical reported)
  rw [meta_sight_led led onward, outside]
  dsimp only
  rw [found, resolved]
  dsimp only
  rw [unrefused]
  dsimp only
  rw [real]
  simp only [Bool.false_eq_true, if_false, shown]

/-- It sees nothing where it is issued to no door. -/
theorem meta_sight_none_iff {name : Iri} {hop : Option AliasHop}
    (led : kernel.canonicalize name = .ok hop) {target : Iri}
    (onward : renamed (Request.new .«meta» name) hop = Request.new .«meta» target)
    (outside : kernelOp target = none) :
    kernel.metaSight forwards capability name = none ↔
      ∀ hit, ¬kernel.IssuedDoor capability target hit := by
  constructor
  · intro unseen hit door
    rw [meta_sight_issued led onward outside door] at unseen
    cases unseen
  · intro unissued
    rw [meta_sight_led led onward, outside]
    dsimp only
    unfold found
    cases resolved : kernel.resolution (Request.new .«meta» target) Scope.empty with
    | error breach => rfl
    | ok resolution =>
      cases resolution with
      | miss => rfl
      | hit hit =>
        dsimp only
        cases reserved : hit.canonical.bind (rewrittenInto (Request.new .«meta» target)) with
        | some refusal => rfl
        | none =>
          dsimp only
          cases real : hit.endpoint.isLimiter with
          | true => rfl
          | false =>
            cases shown : kernel.conceals capability hit.endpoint with
            | true => simp only [Bool.false_eq_true, if_false, shown, if_true]
            | false =>
              refine absurd ⟨resolved, real, shown, fun canonical reported => ?_⟩ (unissued hit)
              exact (rewritten_into_none_iff _ canonical).mp
                (Option.bind_eq_none_iff.mp reserved canonical reported)

/-- The doors of the stream builtins' names are the builtins. -/
theorem issued_builtin_iff {target : Iri} (streamed : isStream target = true)
    (hit : Resolved σ) :
    kernel.IssuedDoor capability target hit ↔ kernel.BuiltinDoor capability target hit := by
  unfold IssuedDoor BuiltinDoor
  rw [resolution_builtin streamed]
  constructor
  · exact fun ⟨resolved, real, shown, _⟩ => ⟨Except.ok.inj resolved, real, shown⟩
  · rintro ⟨resolved, real, shown⟩
    refine ⟨congrArg _ resolved, real, shown, fun canonical reported => ?_⟩
    rw [first_binding_unrewritten target kernel.streams hit resolved] at reported
    cases reported

/-- The doors of other names are those of the root that the seals and the caller's floor let
pass. -/
theorem issued_root_iff {target : Iri} (unstreamed : isStream target = false)
    (hit : Resolved σ) :
    kernel.IssuedDoor capability target hit ↔
      kernel.RootDoor target hit ∧ kernel.Unsealed target hit ∧
        kernel.conceals capability hit.endpoint = false ∧
        ∀ canonical, hit.canonical = some canonical →
          isStream canonical = false ∧ kernelOp canonical = none := by
  unfold IssuedDoor RootDoor Unsealed
  rw [resolution_root unstreamed]
  constructor
  · rintro ⟨checked, real, shown, free⟩
    have same := admit_hit_same _ _ _ _ checked
    rw [← same] at checked
    exact ⟨⟨same.symm, real⟩, checked, shown, free⟩
  · rintro ⟨⟨resolved, real⟩, unsealed, shown, free⟩
    rw [resolved]
    exact ⟨unsealed, real, shown, free⟩

/-- A name that the kernel's table leaves is seen alike where a target would be, and no reserved
canonical is reported of it. -/
theorem unrenamed_alike_iff {name : Iri} (kept : kernel.canonicalize name = .ok none) :
    kernel.metaSight forwards capability name = kernel.describedSight forwards name ↔
      kernel.TargetAlike forwards capability name ∧
        (kernelOp name = none → isStream name = false → ∀ hit canonical,
          kernel.RootDoor name hit → hit.canonical = some canonical →
            isStream canonical = false ∧ kernelOp canonical = none) := by
  have onward : renamed (Request.new .«meta» name) none = Request.new .«meta» name := rfl
  cases named : kernelOp name with
  | some op =>
    have sight : kernel.metaSight forwards capability name =
        kernel.forwardSight forwards capability name := by
      rw [meta_sight_led kept onward, named, forward_sight_operation named]
    rw [sight, forward_sight_alike_iff]
    exact ⟨fun alike => ⟨alike, nofun⟩, And.left⟩
  | none =>
    have unknown : (kernelOp name).bind KernelOps.description = none := by rw [named]; rfl
    have nothing : kernel.metaSight forwards capability name = none ↔
        ∀ hit, ¬kernel.IssuedDoor capability name hit := meta_sight_none_iff kept onward named
    constructor
    · intro same
      by_cases rootless : ∀ hit, ¬kernel.RootDoor name hit
      · rw [(described_sight_none_iff unknown).mpr rootless, nothing] at same
        refine ⟨.unbound unknown rootless fun _ streamed hit door => ?_, ?_⟩
        · exact same hit ((issued_builtin_iff streamed hit).mpr door)
        · exact fun _ _ hit _ door => absurd door (rootless hit)
      · obtain ⟨hit, door⟩ := not_forall_not.mp rootless
        have issued : ∃ hit', kernel.IssuedDoor capability name hit' := by
          rw [described_sight_door unknown door] at same
          by_contra unissued
          rw [nothing.mpr (not_exists.mp unissued)] at same
          cases same
        obtain ⟨hit', door'⟩ := issued
        rw [meta_sight_issued kept onward named door', described_sight_door unknown door] at same
        obtain ⟨described, forwarded⟩ := Prod.mk.inj (Option.some.inj same)
        cases streamed : isStream name with
        | true =>
          exact ⟨.builtin hit hit' named streamed door ((issued_builtin_iff streamed hit').mp door')
            described.symm forwarded.symm, fun _ other => absurd other Bool.true_eq_false.mp⟩
        | false =>
          obtain ⟨root, unsealed, shown, free⟩ := (issued_root_iff streamed hit').mp door'
          refine ⟨.bound hit' named streamed root unsealed shown, ?_⟩
          intro _ _ other canonical door reported
          cases Resolution.hit.inj (root.1.symm.trans door.1)
          exact free canonical reported
    · rintro ⟨alike, reported⟩
      cases alike with
      | operation op own other => rw [named] at other; cases other
      | bound hit _ unstreamed door unsealed shown =>
        have issued := (issued_root_iff unstreamed hit).mpr ⟨door, unsealed, shown,
          fun canonical => reported rfl unstreamed hit canonical door⟩
        rw [meta_sight_issued kept onward named issued, described_sight_door unknown door]
      | unbound _ rootless builtinless =>
        rw [(described_sight_none_iff unknown).mpr rootless, nothing]
        intro hit issued
        cases streamed : isStream name with
        | true => exact builtinless named streamed hit ((issued_builtin_iff streamed hit).mp issued)
        | false => exact rootless hit ((issued_root_iff streamed hit).mp issued).1
      | builtin hit hit' _ streamed door door' described forwarded =>
        rw [meta_sight_issued kept onward named ((issued_builtin_iff streamed hit').mpr door'),
          described_sight_door unknown door, described, forwarded]

omit [Blake3] [Space σ] in
/-- The kernel's table leaves the names of the kernel's own operations. -/
theorem moved_outside (kernel : Kernel σ) {name : Iri} (moved : kernel.canonicalize name ≠ .ok none) :
    kernelOp name = none := by
  by_contra reserved
  have direct (table : AliasTable) : table.canonicalize name = .direct :=
    table.canonicalize_reserved reserved
  apply moved
  unfold canonicalize
  cases kernel.aliases with
  | none => rfl
  | some table => simp only [direct]

/-- The Meta arm sees a name as the walks do exactly where it is told to. -/
theorem first_alike_iff (name : Iri) :
    kernel.metaSight forwards capability name = kernel.describedSight forwards name ↔
      kernel.FirstAlike forwards capability name := by
  constructor
  · intro same
    cases led : kernel.canonicalize name with
    | error error =>
      have outside : kernelOp name = none := kernel.moved_outside (by simp [led])
      have unseen : kernel.metaSight forwards capability name = none := by
        have asked : kernel.canonicalize (Request.new .«meta» name).target = .error error := led
        rw [metaSight, route, asked]
      refine .refused error led ?_
      rw [unseen] at same
      exact (described_sight_none_iff (by rw [outside]; rfl)).mp same.symm
    | ok hop =>
      cases hop with
      | none =>
        obtain ⟨alike, reported⟩ := (unrenamed_alike_iff led).mp same
        exact .unrenamed led alike reported
      | some hop =>
        have outside : kernelOp name = none := kernel.moved_outside (by simp [led])
        have unknown : (kernelOp name).bind KernelOps.description = none := by rw [outside]; rfl
        have onward : renamed (Request.new .«meta» name) (some hop) =
            Request.new .«meta» hop.canonical := rfl
        by_cases rootless : ∀ hit, ¬kernel.RootDoor name hit
        · rw [(described_sight_none_iff unknown).mpr rootless] at same
          cases named : kernelOp hop.canonical with
          | some op =>
            rw [meta_sight_led led onward, named, Option.map_eq_none_iff] at same
            exact .unbound hop led rootless (by rw [named]; exact same) (by simp [named])
          | none =>
            refine .unbound hop led rootless (by rw [named]; rfl) fun _ => ?_
            exact (meta_sight_none_iff led onward named).mp same
        · obtain ⟨hit, door⟩ := not_forall_not.mp rootless
          rw [described_sight_door unknown door] at same
          cases named : kernelOp hop.canonical with
          | some op =>
            rw [meta_sight_led led onward, named] at same
            obtain ⟨own, described, pair⟩ := Option.map_eq_some_iff.mp same
            obtain ⟨rfl, forwardless⟩ := Prod.mk.inj pair
            exact .operation hop op hit led named door described forwardless.symm
          | none =>
            have issued : ∃ hit', kernel.IssuedDoor capability hop.canonical hit' := by
              by_contra unissued
              rw [(meta_sight_none_iff led onward named).mpr (not_exists.mp unissued)] at same
              cases same
            obtain ⟨hit', door'⟩ := issued
            rw [meta_sight_issued led onward named door'] at same
            obtain ⟨described, forwarded⟩ := Prod.mk.inj (Option.some.inj same)
            exact .renamed hop hit hit' led named door door' described.symm forwarded.symm
  · intro alike
    have unnamed (moved : kernel.canonicalize name ≠ .ok none) :
        (kernelOp name).bind KernelOps.description = none := by
      rw [kernel.moved_outside moved]
      rfl
    cases alike with
    | unrenamed kept alike reported => exact (unrenamed_alike_iff kept).mpr ⟨alike, reported⟩
    | renamed hop hit hit' moved outside door door' described forwarded =>
      rw [meta_sight_issued moved rfl outside door',
        described_sight_door (unnamed (by simp [moved])) door, described, forwarded]
    | operation hop op hit moved named door described forwardless =>
      rw [meta_sight_led moved rfl, named,
        described_sight_door (unnamed (by simp [moved])) door, forwardless]
      dsimp only
      rw [described]
      rfl
    | unbound hop moved rootless unknown unissued =>
      rw [(described_sight_none_iff (unnamed (by simp [moved]))).mpr rootless]
      cases named : kernelOp hop.canonical with
      | some op =>
        rw [named] at unknown
        rw [meta_sight_led moved rfl, named]
        exact Option.map_eq_none_iff.mpr unknown
      | none => exact (meta_sight_none_iff moved rfl named).mpr (unissued named)
    | refused error refuses rootless =>
      rw [(described_sight_none_iff (unnamed (by simp [refuses]))).mpr rootless]
      have asked : kernel.canonicalize (Request.new .«meta» name).target = .error error := refuses
      rw [metaSight, route, asked]

omit [IriSyntax] in
/-- The forwards that a walk sees are those of the doors that the root answers. -/
theorem reaches_iff (hops : Nat) (name last : Iri) :
    Reaches (kernel.describedSight forwards) hops name last ↔
      kernel.Forwarded forwards hops name last := by
  constructor
  · intro reaches
    induction reaches with
    | here name => exact .here name
    | onward hops name last own forward seen _ ih =>
      have unknown : (kernelOp name).bind KernelOps.description = none := by
        by_contra known
        obtain ⟨described, known⟩ := Option.ne_none_iff_exists'.mp known
        rw [described_sight_operation known] at seen
        cases seen
      have doored : ∃ hit, kernel.RootDoor name hit := by
        by_contra rootless
        rw [(described_sight_none_iff unknown).mpr (not_exists.mp rootless)] at seen
        cases seen
      obtain ⟨hit, door⟩ := doored
      rw [described_sight_door unknown door] at seen
      exact .onward hops name last hit forward unknown door
        (Prod.mk.inj (Option.some.inj seen)).2 ih
  · intro forwarded
    induction forwarded with
    | here name => exact .here name
    | onward hops name last hit forward unknown door says_ _ ih =>
      refine .onward hops name last (kernel.describe hit.endpoint) forward ?_ ih
      rw [described_sight_door unknown door, says_]

/-- The names on the way from a name are seen alike. -/
structure SightsAlike (kernel : Kernel σ) (forwards : Endpoint → Option Forward)
    (capability : Capability) (name : Iri) : Prop where
  first : kernel.metaSight forwards capability name = kernel.describedSight forwards name
  trail : ∀ hops, 1 ≤ hops → hops ≤ maxForwards → ∀ last,
    Reaches (kernel.describedSight forwards) hops name last →
      kernel.forwardSight forwards capability last = kernel.describedSight forwards last
  beyond : ∀ last, Reaches (kernel.describedSight forwards) (maxForwards + 1) name last →
    kernel.forwardSight forwards capability last = none

/-- The way on which both faces see alike is told by the root's doors, the seals, the builtins
and the forwards. -/
theorem faces_alike_seen (name : Iri) :
    kernel.FacesAlike forwards capability name ↔ kernel.SightsAlike forwards capability name := by
  constructor
  · intro alike
    refine ⟨first_alike_iff name |>.mpr alike.first, ?_, ?_⟩
    · intro hops positive within last reaches
      exact (forward_sight_alike_iff last).mpr
        (alike.trail hops positive within last ((reaches_iff hops name last).mp reaches))
    · intro last reaches
      exact (forward_sight_none_iff last).mpr
        (alike.beyond last ((reaches_iff _ name last).mp reaches))
  · intro alike
    refine ⟨first_alike_iff name |>.mp alike.first, ?_, ?_⟩
    · intro hops positive within last forwarded
      exact (forward_sight_alike_iff last).mp
        (alike.trail hops positive within last ((reaches_iff hops name last).mpr forwarded))
    · intro last forwarded
      exact (forward_sight_none_iff last).mp
        (alike.beyond last ((reaches_iff _ name last).mpr forwarded))

/-- Over a root that answers no name of the stream builtins, a target is seen alike unless only one
face sees it. -/
theorem forward_sight_agrees
    (unstreamed : ∀ target, isStream target = true →
      Space.resolve kernel.root (Request.new .«meta» target) Scope.empty = .miss)
    (target : Iri) :
    Agrees (kernel.describedSight forwards target)
      (kernel.forwardSight forwards capability target) := by
  by_cases seen : kernel.forwardSight forwards capability target = none
  · exact .inr (.inl seen)
  cases known : (kernelOp target).bind KernelOps.description with
  | some own =>
    obtain ⟨op, named, described⟩ := Option.bind_eq_some_iff.mp known
    exact .inr (.inr ((forward_sight_alike_iff target).mpr
      (.operation op own named described)).symm)
  | none =>
    by_cases rootless : ∀ hit, ¬kernel.RootDoor target hit
    · exact .inl ((described_sight_none_iff known).mpr rootless)
    · obtain ⟨hit, door⟩ := not_forall_not.mp rootless
      have unstreamed : isStream target = false := by
        by_contra streamed
        rw [Bool.not_eq_false] at streamed
        have missed := unstreamed target streamed
        rw [door.1] at missed
        cases missed
      refine .inr (.inr ((forward_sight_alike_iff target).mpr ?_).symm)
      by_contra apart
      refine seen ((forward_sight_none_iff target).mpr ?_)
      cases named : kernelOp target with
      | some op =>
        rw [named] at known
        exact .operation op named known
      | none =>
        refine .unbound named unstreamed fun hit door unsealed => ?_
        by_contra shown
        exact apart (.bound hit named unstreamed door unsealed (by simpa using shown))

/-- Where all forwards are plain views, what Meta sees agrees with what a probe describes. -/
theorem meta_sight_agrees {name : Iri} (plainly : kernel.Plainly forwards name) :
    Agrees (kernel.describedSight forwards name) (kernel.metaSight forwards capability name) := by
  have kept := plainly.unrenamed
  have onward : renamed (Request.new .«meta» name) none = Request.new .«meta» name := rfl
  cases named : kernelOp name with
  | some op =>
    have sight : kernel.metaSight forwards capability name =
        kernel.forwardSight forwards capability name := by
      rw [meta_sight_led kept onward, named, forward_sight_operation named]
    exact sight ▸ forward_sight_agrees plainly.unstreamed name
  | none =>
    have unknown : (kernelOp name).bind KernelOps.description = none := by rw [named]; rfl
    by_cases unissued : ∀ hit, ¬kernel.IssuedDoor capability name hit
    · exact .inr (.inl ((meta_sight_none_iff kept onward named).mpr unissued))
    · obtain ⟨hit, door⟩ := not_forall_not.mp unissued
      cases streamed : isStream name with
      | true =>
        refine .inl ((described_sight_none_iff unknown).mpr fun other root => ?_)
        have missed := plainly.unstreamed name streamed
        rw [root.1] at missed
        cases missed
      | false =>
        have root := ((issued_root_iff streamed hit).mp door).1
        rw [meta_sight_issued kept onward named door, described_sight_door unknown root]
        exact .inr (.inr rfl)

omit [IriSyntax] in
/-- What a probe describes as a forward is a view. -/
theorem described_view (views : ∀ endpoint forward, forwards endpoint = some forward →
      IsView (kernel.describe endpoint) forward)
    {name : Iri} {own : Description} {forward : Forward}
    (seen : kernel.describedSight forwards name = some (own, some forward)) :
    IsView own forward := by
  unfold describedSight at seen
  split at seen
  · cases seen
  · split at seen
    · split at seen
      · cases seen
      · rename_i hit _ _
        obtain ⟨rfl, there⟩ := Prod.mk.inj (Option.some.inj seen)
        exact views hit.endpoint forward there
    · cases seen

omit [IriSyntax] in
/-- A probe presents what it describes, followed seven names further. -/
theorem probe_eq (name : Iri) :
    kernel.probe forwards name = (kernel.describedSight forwards name).map
      (present (follow (kernel.describedSight forwards) 7)) :=
  rfl

/-- What is left of an alike way behind its first forward. -/
theorem SightsAlike.onward {name : Iri} {own : Description} {forward : Forward}
    (alike : kernel.SightsAlike forwards capability name)
    (seen : kernel.describedSight forwards name = some (own, some forward)) :
    AlikeFrom (kernel.describedSight forwards) (kernel.forwardSight forwards capability) 7
      forward.target where
  trail hops within last reaches :=
    alike.trail (hops + 1) (Nat.le_add_left 1 hops) (Nat.succ_le_succ within) last
      (.onward hops name last own forward seen reaches)
  beyond last reaches := alike.beyond last (.onward _ name last own forward seen reaches)

/-- Both faces describe a name alike when they see alike all the way, and not past it. -/
theorem faces_of_alike {name : Iri} (alike : kernel.SightsAlike forwards capability name) :
    kernel.metaFace forwards capability name = kernel.probe forwards name := by
  rw [meta_face_eq, alike.first, probe_eq]
  cases seen : kernel.describedSight forwards name with
  | none => rw [Option.map_none, Option.map_none]
  | some found =>
    obtain ⟨own, forward⟩ := found
    rw [Option.map_some, Option.map_some]
    cases forward with
    | none => rw [present_own, present_own]
    | some forward =>
      have bound : maxForwards = 7 + 1 := rfl
      rw [present_forward, present_forward, bound, follow_alike (alike.onward seen)]

/-- Over forwarders that are views, faces that describe a name alike see alike all the way. -/
theorem alike_of_faces {name : Iri} (plainly : kernel.Plainly forwards name)
    (same : kernel.metaFace forwards capability name = kernel.probe forwards name) :
    kernel.SightsAlike forwards capability name := by
  have views : ∀ endpoint forward, forwards endpoint = some forward →
      IsView (kernel.describe endpoint) forward := by
    intro endpoint forward says_
    obtain ⟨view, rfl, words, unbroken⟩ := plainly.views endpoint forward says_
    exact view.is_view words unbroken
  rw [meta_face_eq, probe_eq] at same
  have first := (meta_sight_agrees plainly).eq (congrArg summaryOf same.symm)
  have further : ∀ own forward, kernel.describedSight forwards name = some (own, some forward) →
      AlikeFrom (kernel.describedSight forwards) (kernel.forwardSight forwards capability) 7
        forward.target := by
    intro own forward seen
    rw [← first, seen, Option.map_some, Option.map_some] at same
    refine alike_of_follow (forward_sight_agrees plainly.unstreamed)
      (fun _ _ _ => described_view views) ?_
    exact (described_view views seen).summary_of_project
      (congrArg Description.summary (Option.some.inj same.symm))
  constructor
  · exact first.symm
  · intro hops positive within last reaches
    cases reaches with
    | here => exact absurd positive (Nat.not_succ_le_zero 0)
    | onward hops _ _ own forward seen later =>
      exact (further own forward seen).trail hops (Nat.le_of_succ_le_succ within) last later
  · intro last reaches
    cases reaches with
    | onward _ _ _ own forward seen later => exact (further own forward seen).beyond last later

/-- What the Meta arm describes a name as is what every walk does when both see alike along the
forwards, the name included, and the ninth forward leads to nothing. Of a kernel whose forwarders
are views, whose root leaves the stream builtins' names to the kernel and whose own table leaves the
name, it is so only then. -/
theorem faces_alike_iff (kernel : Kernel σ) (forwards : Endpoint → Option Forward)
    (capability : Capability) (name : Iri) :
    (kernel.FacesAlike forwards capability name →
      kernel.metaFace forwards capability name = kernel.probe forwards name) ∧
    (kernel.Plainly forwards name →
      kernel.metaFace forwards capability name = kernel.probe forwards name →
        kernel.FacesAlike forwards capability name) :=
  ⟨fun alike => faces_of_alike ((faces_alike_seen name).mp alike),
    fun plainly same => (faces_alike_seen name).mpr (alike_of_faces plainly same)⟩

end Kernel

namespace NineForwards

local instance nineDigest : Blake3 := ⟨fun bytes => bytes.length.toUInt64⟩

local instance nineIri : IriSyntax := ⟨fun _ => true, fun _ => []⟩

def name (index : Nat) : Iri := "urn:".toList ++ List.replicate (index + 1) 'v'

/-- A view of one name onto the next. -/
def overlay (index : Nat) : Arrangement Empty :=
  .«alias» (.ofRules [.plain .exact (name index) (name (index + 1)) .root]) (.endpointSpace [] none)
    none

/-- A door behind so many views. -/
def root (views : Nat) : Arrangement Empty :=
  .fallback ((List.range views).map overlay ++
    [.endpointSpace [(.exact (name views), .bound 0 false)] none]) none

def forwards : Endpoint → Option Forward
  | .view logical canonical => some { name := logical, target := canonical }
  | .bound _ _ | .bottom | .refusal _ => none

def describe : Endpoint → Description
  | .view _ canonical =>
    { id := "alias-view".toList
      title := "A view onto another name".toList
      summary := forwardsTo ++ canonical ++
        (">, resolved from the root under the caller's own capability (an ik:RewriteRule with " ++
          "ik:resolveAt \"root\").").toList
      verbs := [.source, .sink, .exists, .delete, .«meta»]
      arguments := .«open» "an argument of the target, passed through unchanged".toList }
  | .bound _ _ =>
    { id := "door".toList
      summary := "A door".toList
      verbs := [.source, .«meta»]
      outputs := ["text/plain".toList] }
  | .bottom | .refusal _ => { id := [] }

def kernel (views : Nat) : Kernel (Arrangement Empty) where
  aliases := none
  root := root views
  seals := .default
  streams := []
  maxDepth := 64
  describe := describe
  address := Endpoint.ownAddress
  apart := Endpoint.own_address_injective
  alive := fun _ => true

/-- Behind nine views the Meta arm describes the first by the door, and the walks do not. -/
theorem ninth_forward_told_apart :
    ((kernel 9).metaFace forwards .root (name 0)).map Description.outputs =
        some ["text/plain".toList] ∧
      ((kernel 9).probe forwards (name 0)).map Description.outputs = some [] ∧
      (kernel 9).metaFace forwards .root (name 0) ≠ (kernel 9).probe forwards (name 0) := by
  have rendered : ((kernel 9).metaFace forwards .root (name 0)).map Description.outputs =
      some ["text/plain".toList] := by decide
  have walked : ((kernel 9).probe forwards (name 0)).map Description.outputs = some [] := by decide
  refine ⟨rendered, walked, fun same => ?_⟩
  rw [same, walked] at rendered
  cases rendered

/-- One view onto the door is described alike: the view is bound in the root, and so is the door,
which forwards no further. -/
theorem one_forward_told_alike :
    (kernel 1).metaFace forwards .root (name 0) = (kernel 1).probe forwards (name 0) := by
  have view : (kernel 1).RootDoor (name 0) (Resolved.new (.view (name 0) (name 1)) []) := ⟨rfl, rfl⟩
  have door : (kernel 1).RootDoor (name 1) (Resolved.new (.bound 0 false) []) := ⟨rfl, rfl⟩
  have ends : ∀ hops last, (kernel 1).Forwarded forwards hops (name 1) last → last = name 1 := by
    intro hops last forwarded
    cases forwarded with
    | here => rfl
    | onward _ _ _ hit forward _ other says_ _ =>
      cases Resolution.hit.inj (door.1.symm.trans other.1)
      cases says_
  have onward : ∀ hops last, 1 ≤ hops → (kernel 1).Forwarded forwards hops (name 0) last →
      (kernel 1).Forwarded forwards (hops - 1) (name 1) last := by
    intro hops last positive forwarded
    cases forwarded with
    | here => cases positive
    | onward hops _ _ hit forward _ other says_ later =>
      cases Resolution.hit.inj (view.1.symm.trans other.1)
      cases says_
      exact later
  refine ((kernel 1).faces_alike_iff forwards .root (name 0)).1 ⟨?_, ?_, ?_⟩
  · refine .unrenamed rfl (.bound _ (by decide) (by decide) view rfl (by decide)) ?_
    intro _ _ hit canonical other reported
    cases Resolution.hit.inj (view.1.symm.trans other.1)
    cases reported
  · intro hops positive _ last forwarded
    rw [ends _ last (onward hops last positive forwarded)]
    exact .bound _ (by decide) (by decide) door rfl (by decide)
  · intro last forwarded
    cases onward _ last (by decide) forwarded with
    | onward _ _ _ hit forward _ other says_ _ =>
      cases Resolution.hit.inj (door.1.symm.trans other.1)
      cases says_

/-- Behind eight the walks reach the door too. -/
example : ((kernel 8).probe forwards (name 0)).map Description.outputs =
    some ["text/plain".toList] := by decide

end NineForwards

end Ikigai
