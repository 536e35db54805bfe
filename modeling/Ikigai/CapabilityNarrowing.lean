import Ikigai.Capability

/-!
# What narrowing can change

A narrowed scope set holds nothing but what was held and exclusions its requests
brought, holds every exclusion of either, and carries no principal but the one held. So
a plain requirement is never gained along a chain of narrowings. A family is a presence
test and an exclusion is present: a chain gains a family exactly when a request on the
way brings an exclusion under it.
-/

namespace Ikigai.Capability

section Narrowing

variable [IriSyntax]

/-- A well-formed principal scope is its principal behind the head. -/
theorem principal_in_some (scope principal : Text) (named : principalIn scope = some principal) :
    scope = principalScopePrefix ++ principal ∧ isDenyScope scope = false := by
  rw [principalIn] at named
  cases stripped : scope.stripPrefix principalScopePrefix with
  | none => simp [stripped] at named
  | some iri =>
    have whole := (Text.strip_prefix_eq_some scope principalScopePrefix iri).mp stripped
    simp only [stripped] at named
    by_cases carried : (checkPrincipal iri).isOk = true
    · have same : iri = principal := by simpa [carried] using named
      subst same
      refine ⟨whole, ?_⟩
      by_contra excludes
      rw [Bool.not_eq_false, whole] at excludes
      rw [checkPrincipal] at carried
      split at carried
      · cases carried
      · split at carried
        · cases carried
        · split at carried
          · cases carried
          · cases carried
    · simp [carried] at named

/-- An exclusion names nobody. -/
theorem deny_names_nobody (scope : Text) (excludes : isDenyScope scope = true) :
    principalIn scope = none := by
  by_contra named
  obtain ⟨principal, named⟩ := Option.ne_none_iff_exists'.mp named
  rw [(principal_in_some scope principal named).2] at excludes
  cases excludes

/-- The one principal is held. -/
theorem single_principal_held (held : ScopeSet) (principal : Text)
    (single : singlePrincipal held = some principal) :
    principalScopePrefix ++ principal ∈ held ∧
      principalIn (principalScopePrefix ++ principal) = some principal := by
  rw [singlePrincipal] at single
  split at single
  · rename_i only alone
    cases single
    have listed : principal ∈ held.items.filterMap principalIn := by simp [alone]
    obtain ⟨scope, inside, named⟩ := List.mem_filterMap.mp listed
    obtain ⟨whole, _⟩ := principal_in_some scope principal named
    exact ⟨whole ▸ inside, whole ▸ named⟩
  · cases single

/-- Whatever scope names a principal, where one principal is held, names that one. -/
theorem single_principal_of_mem (kept : ScopeSet) (principal : Text)
    (single : singlePrincipal kept = some principal) :
    ∃ scope ∈ kept, principalIn scope = some principal := by
  obtain ⟨held, named⟩ := single_principal_held kept principal single
  exact ⟨_, held, named⟩

/-- One scope set narrowed to another by requests that brought some scopes along. -/
structure NarrowedFrom (held : ScopeSet) (brought : List Text) (kept : ScopeSet) : Prop where
  held_or_brought : ∀ scope ∈ kept, scope ∈ held ∨ (isDenyScope scope = true ∧ scope ∈ brought)
  sticky : ∀ scope, isDenyScope scope = true → scope ∈ held ∨ scope ∈ brought → scope ∈ kept
  principal : ∀ principal, singlePrincipal kept = some principal →
    singlePrincipal held = some principal

namespace NarrowedFrom

/-- A scope is narrowed from itself by asking for nothing. -/
theorem refl (held : ScopeSet) : NarrowedFrom held [] held :=
  ⟨fun _ inside => Or.inl inside, fun _ _ inside => inside.resolve_right List.not_mem_nil,
    fun _ single => single⟩

/-- What is narrowed twice is narrowed from the first, by what both asked. -/
theorem trans (held middle kept : ScopeSet) (first second : List Text)
    (one : NarrowedFrom held first middle) (two : NarrowedFrom middle second kept) :
    NarrowedFrom held (first ++ second) kept := by
  constructor
  · intro scope inside
    rcases two.held_or_brought scope inside with inside | ⟨excludes, brought⟩
    · rcases one.held_or_brought scope inside with inside | ⟨excludes, brought⟩
      · exact Or.inl inside
      · exact Or.inr ⟨excludes, List.mem_append_left _ brought⟩
    · exact Or.inr ⟨excludes, List.mem_append_right _ brought⟩
  · intro scope excludes inside
    apply two.sticky scope excludes
    rcases inside with inside | brought
    · exact Or.inl (one.sticky scope excludes (Or.inl inside))
    · rcases List.mem_append.mp brought with brought | brought
      · exact Or.inl (one.sticky scope excludes (Or.inr brought))
      · exact Or.inr brought
  · intro principal single
    exact one.principal principal (two.principal principal single)

end NarrowedFrom

/-- A scope survives only if it is held; an exclusion always does, and a principal only
as the one held. -/
theorem survives_deny (held requested : ScopeSet) (scope : Text)
    (excludes : isDenyScope scope = true) : survives held requested scope = true := by
  simp [survives, deny_names_nobody scope excludes, excludes]

/-- A principal that survives is the single one. -/
theorem survives_principal (held requested : ScopeSet) (scope principal : Text)
    (named : principalIn scope = some principal) (kept : survives held requested scope = true) :
    singlePrincipal held = some principal := by
  simp only [survives, named, Bool.and_eq_true, decide_eq_true_eq] at kept
  exact kept.1.symm

/-- What an attenuated scope set keeps. -/
def attenuated (held : ScopeSet) (asked : List Text) : ScopeSet :=
  (held.filter (survives held (.ofList asked))).extend
    ((OrderedSet.ofList asked).items.filter isDenyScope)

/-- What is left after attenuating is what survives, and the denials that were asked for. -/
theorem mem_attenuated (held : ScopeSet) (asked : List Text) (scope : Text) :
    scope ∈ attenuated held asked ↔
      (scope ∈ held ∧ survives held (.ofList asked) scope = true) ∨
        (scope ∈ asked ∧ isDenyScope scope = true) := by
  rw [attenuated, OrderedSet.mem_extend, OrderedSet.mem_filter, List.mem_filter,
    OrderedSet.mem_items, OrderedSet.mem_of_list]

/-- Attenuating narrows. -/
theorem attenuated_narrows (held : ScopeSet) (asked : List Text) :
    NarrowedFrom held asked (attenuated held asked) := by
  constructor
  · intro scope inside
    rcases (mem_attenuated held asked scope).mp inside with ⟨inside, _⟩ | ⟨brought, excludes⟩
    · exact Or.inl inside
    · exact Or.inr ⟨excludes, brought⟩
  · intro scope excludes inside
    refine (mem_attenuated held asked scope).mpr ?_
    rcases inside with inside | brought
    · exact Or.inl ⟨inside, survives_deny held _ scope excludes⟩
    · exact Or.inr ⟨brought, excludes⟩
  · intro principal single
    obtain ⟨scope, inside, named⟩ := single_principal_of_mem _ principal single
    rcases (mem_attenuated held asked scope).mp inside with ⟨_, kept⟩ | ⟨_, excludes⟩
    · exact survives_principal held _ scope principal named kept
    · rw [deny_names_nobody scope excludes] at named
      cases named

/-- Keeping the holder's own principal narrows all the same. -/
theorem clamped_narrows (held : ScopeSet) (asked : List Text) (principal : Text)
    (single : singlePrincipal held = some principal) :
    NarrowedFrom held asked
      ((attenuated held asked).insert (principalScopePrefix ++ principal)) := by
  have narrowed := attenuated_narrows held asked
  obtain ⟨own, named⟩ := single_principal_held held principal single
  constructor
  · intro scope inside
    rcases (OrderedSet.mem_insert _ _ scope).mp inside with rfl | inside
    · exact Or.inl own
    · exact narrowed.held_or_brought scope inside
  · intro scope excludes inside
    exact (OrderedSet.mem_insert _ _ scope).mpr (Or.inr (narrowed.sticky scope excludes inside))
  · intro other alone
    obtain ⟨scope, inside, names⟩ := single_principal_of_mem _ other alone
    rcases (OrderedSet.mem_insert _ _ scope).mp inside with rfl | inside
    · rw [named] at names
      rw [single, names]
    · rcases (mem_attenuated held asked scope).mp inside with ⟨_, kept⟩ | ⟨_, excludes⟩
      · exact survives_principal held _ scope other names kept
      · rw [deny_names_nobody scope excludes] at names
        cases names

/-- A narrowing step: to some scopes, or to what another capability carries. -/
inductive Narrowing where
  | attenuate (asked : List Text)
  | clamp (carried : Capability)

/-- The scopes a step's argument names. -/
def Narrowing.brought : Narrowing → List Text
  | .attenuate asked => asked
  | .clamp .root => []
  | .clamp (.scoped asked) => asked.items

def narrow (capability : Capability) : Narrowing → Capability
  | .attenuate asked => capability.attenuate asked
  | .clamp carried => capability.clamp carried

/-- A chain of narrowings. -/
def narrowAll (capability : Capability) (steps : List Narrowing) : Capability :=
  steps.foldl narrow capability

/-- One step narrows a scope set. -/
theorem narrow_scoped (held : ScopeSet) (step : Narrowing) :
    ∃ kept, narrow (.scoped held) step = .scoped kept ∧ NarrowedFrom held step.brought kept := by
  cases step with
  | attenuate asked => exact ⟨attenuated held asked, rfl, attenuated_narrows held asked⟩
  | clamp carried =>
    cases carried with
    | root => exact ⟨held, rfl, NarrowedFrom.refl held⟩
    | «scoped» asked =>
      cases single : singlePrincipal held with
      | none =>
        refine ⟨attenuated held asked.items, ?_, attenuated_narrows held asked.items⟩
        simp [narrow, clamp, attenuate, attenuated, single]
      | some principal =>
        refine ⟨_, ?_, clamped_narrows held asked.items principal single⟩
        simp [narrow, clamp, attenuate, attenuated, single]

/-- A chain narrows a scope set by everything its steps brought. -/
theorem narrow_all_scoped (held : ScopeSet) (steps : List Narrowing) :
    ∃ kept, narrowAll (.scoped held) steps = .scoped kept ∧
      NarrowedFrom held (steps.flatMap Narrowing.brought) kept := by
  induction steps generalizing held with
  | nil => exact ⟨held, rfl, NarrowedFrom.refl held⟩
  | cons step rest ih =>
    obtain ⟨middle, stepped, one⟩ := narrow_scoped held step
    obtain ⟨kept, ran, two⟩ := ih middle
    refine ⟨kept, ?_, one.trans held middle kept _ _ two⟩
    rw [narrowAll, List.foldl_cons, stepped]
    exact ran

/-- A family is satisfied by holding any scope that begins as it does. -/
theorem satisfies_family (held : ScopeSet) (scope family : Text)
    (asksFamily : scope.stripSuffix '*' = some family) :
    (Capability.scoped held).satisfies scope = true ↔ ∃ own ∈ held, family <+: own := by
  simp only [satisfies, asksFamily, scopes, List.any_eq_true, Text.starts_with_iff]
  rfl

/-- A narrowed scope set grants nothing exactly that was not granted. -/
theorem narrowed_allows (held kept : ScopeSet) (brought : List Text)
    (narrowed : NarrowedFrom held brought kept) (scope : Text)
    (granted : (Capability.scoped kept).allows scope = true) :
    (Capability.scoped held).allows scope = true := by
  simp only [allows, Bool.and_eq_true, decide_eq_true_eq, Bool.not_eq_eq_eq_not, Bool.not_true,
    Option.all_eq_true, beq_iff_eq] at granted ⊢
  obtain ⟨⟨inside, grant⟩, own⟩ := granted
  refine ⟨⟨?_, grant⟩, fun principal named => narrowed.principal principal (own principal named)⟩
  rcases narrowed.held_or_brought scope inside with inside | ⟨excludes, _⟩
  · exact inside
  · rw [grant] at excludes
    cases excludes

/-- A request on the way names an exclusion under a family. -/
def BringsExclusion (steps : List Narrowing) (family : Text) : Prop :=
  ∃ step ∈ steps, ∃ scope ∈ step.brought, isDenyScope scope = true ∧ family <+: scope

/-- A chain of narrowings gains a requirement exactly when it is a family and a request
on the way brings an exclusion under it: grants only shrink, and an exclusion, once
brought, stays and is present. -/
theorem narrowing_gains_iff (capability : Capability) (steps : List Narrowing) (scope : Text) :
    (capability.satisfies scope = false ∧ (capability.narrowAll steps).satisfies scope = true) ↔
      (capability.satisfies scope = false ∧
        ∃ family, scope.stripSuffix '*' = some family ∧ BringsExclusion steps family) := by
  refine and_congr_right fun lacks => ?_
  cases capability with
  | root =>
    cases asks : scope.stripSuffix '*' <;> simp [satisfies, asks, scopes, allows] at lacks
  | «scoped» held =>
    obtain ⟨kept, ran, narrowed⟩ := narrow_all_scoped held steps
    rw [ran]
    cases asks : scope.stripSuffix '*' with
    | none =>
      simp only [satisfies, asks] at lacks ⊢
      constructor
      · intro granted
        rw [narrowed_allows held kept _ narrowed scope granted] at lacks
        cases lacks
      · rintro ⟨_, isNone, _⟩
        cases isNone
    | some family =>
      rw [satisfies_family kept scope family asks]
      have absent : ¬ ∃ own ∈ held, family <+: own := by
        rw [← satisfies_family held scope family asks, lacks]
        exact Bool.false_ne_true
      constructor
      · rintro ⟨own, inside, under⟩
        rcases narrowed.held_or_brought own inside with inside | ⟨excludes, brought⟩
        · exact absurd ⟨own, inside, under⟩ absent
        · obtain ⟨step, member, names⟩ := List.mem_flatMap.mp brought
          exact ⟨family, rfl, step, member, own, names, excludes, under⟩
      · rintro ⟨_, ⟨⟩, step, member, own, names, excludes, under⟩
        exact ⟨own, narrowed.sticky own excludes
          (Or.inr (List.mem_flatMap.mpr ⟨step, member, names⟩)), under⟩

end Narrowing

/-!
A holder of nothing attenuates itself to one exclusion, and satisfies the family it is
under.
-/

namespace ExclusionExample

local instance anyIri : IriSyntax := ⟨fun _ => true, fun _ => []⟩

def nothing : Capability := .scoped .empty

def family : Text := "urn:cap:fs:read:*".toList

/-- The example's scope satisfies the family once it is attenuated, and not before. -/
theorem attenuating_gains_a_family :
    nothing.satisfies family = false ∧
      (nothing.attenuate ["urn:cap:fs:read:-/x".toList]).satisfies family = true := by
  decide

end ExclusionExample

end Ikigai.Capability
