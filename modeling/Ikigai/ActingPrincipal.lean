import Ikigai.CapabilityNarrowing

/-!
# Who a narrowed capability acts for

A principal is carried inside the scope set, so whom a capability acts for is read from
its members. What one narrowing makes of the principals a set carries is said once; a
chain of narrowings is followed from it.
-/

namespace Ikigai.Capability

section Acting

variable [IriSyntax]

/-- The principals a scope set carries. -/
def principals (held : ScopeSet) : List Text := held.items.filterMap principalIn

/-- How many principal scopes a set holds. -/
def principalCount (held : ScopeSet) : Nat :=
  held.items.countP fun scope => (principalIn scope).isSome

/-- Principals are counted once each. -/
theorem principal_count_eq (held : ScopeSet) : principalCount held = (principals held).length :=
  (List.length_filterMap_eq_countP).symm

/-- A principal is carried by the one scope that spells it. -/
theorem mem_principals (held : ScopeSet) (principal : Text) :
    principal ∈ principals held ↔
      principalScopePrefix ++ principal ∈ held ∧
        principalIn (principalScopePrefix ++ principal) = some principal := by
  constructor
  · intro carried
    obtain ⟨scope, inside, named⟩ := List.mem_filterMap.mp carried
    obtain ⟨whole, _⟩ := principal_in_some scope principal named
    exact ⟨whole ▸ inside, whole ▸ named⟩
  · rintro ⟨inside, named⟩
    exact List.mem_filterMap.mpr ⟨_, inside, named⟩

/-- No principal is listed twice. -/
theorem principals_nodup (held : ScopeSet) : (principals held).Nodup := by
  refine List.Nodup.filterMap ?_ (held.increasing.imp fun less => less.ne)
  intro scope other principal named named'
  rw [(principal_in_some scope principal named).1, (principal_in_some other principal named').1]

/-- A scope has a single principal exactly when its list is that one. -/
theorem single_principal_iff (held : ScopeSet) (principal : Text) :
    singlePrincipal held = some principal ↔ principals held = [principal] := by
  unfold singlePrincipal principals
  split
  · rename_i only alone
    simp [alone]
  · rename_i several
    constructor
    · intro single
      cases single
    · intro alone
      exact absurd alone (several principal)

/-- The one principal is the only one carried. -/
theorem single_principal_iff_mem (held : ScopeSet) (principal : Text) :
    singlePrincipal held = some principal ↔
      ∀ other, other ∈ principals held ↔ other = principal := by
  rw [single_principal_iff]
  constructor
  · intro alone other
    rw [alone, List.mem_singleton]
  · intro only
    have same : (principals held).Perm [principal] := by
      rw [List.perm_ext_iff_of_nodup (principals_nodup held) (List.nodup_singleton principal)]
      intro other
      rw [only other, List.mem_singleton]
    exact List.perm_singleton.mp same

/-- A set that carries no principal but one carries at most that one. -/
theorem principal_count_le_one (held : ScopeSet) (own : Option Text)
    (only : ∀ principal ∈ principals held, own = some principal) : principalCount held ≤ 1 := by
  rw [principal_count_eq]
  have within : principals held ⊆ own.toList := by
    intro principal carried
    rw [only principal carried]
    exact List.mem_singleton_self principal
  have bounded := ((principals_nodup held).subperm within).length_le
  have short : own.toList.length ≤ 1 := by cases own <;> simp
  omega

/-- A scope of several has none that is single. -/
theorem several_have_no_single (held : ScopeSet) (several : 2 ≤ principalCount held) :
    singlePrincipal held = none := by
  cases single : singlePrincipal held with
  | none => rfl
  | some principal =>
    rw [principal_count_eq, (single_principal_iff held principal).mp single] at several
    simp at several

/-- An attenuation carries the one principal held, when it was asked for. -/
theorem mem_principals_attenuated (held : ScopeSet) (asked : List Text) (principal : Text) :
    principal ∈ principals (attenuated held asked) ↔
      singlePrincipal held = some principal ∧ principalScopePrefix ++ principal ∈ asked := by
  rw [mem_principals, mem_attenuated]
  constructor
  · rintro ⟨⟨inside, kept⟩ | ⟨_, excludes⟩, named⟩
    · simp only [survives, named, Bool.and_eq_true, decide_eq_true_eq, OrderedSet.mem_of_list]
        at kept
      exact ⟨kept.1.symm, kept.2⟩
    · rw [deny_names_nobody _ excludes] at named
      cases named
  · rintro ⟨single, named⟩
    obtain ⟨inside, own⟩ := single_principal_held held principal single
    refine ⟨.inl ⟨inside, ?_⟩, own⟩
    simp [survives, own, single, named]

/-- Root narrows to any one principal, and to none of several. -/
theorem mem_principals_at_most_one (scopes : ScopeSet) (principal : Text) :
    principal ∈ principals (atMostOnePrincipal scopes) ↔
      singlePrincipal scopes = some principal := by
  by_cases several : 1 < principalCount scopes
  · have dropped : atMostOnePrincipal scopes =
        scopes.filter fun scope => (principalIn scope).isNone := if_pos several
    rw [several_have_no_single scopes several, dropped, mem_principals, OrderedSet.mem_filter]
    constructor
    · rintro ⟨⟨_, nobody⟩, named⟩
      rw [named] at nobody
      cases nobody
    · intro none
      cases none
  · have kept : atMostOnePrincipal scopes = scopes := if_neg several
    rw [kept, single_principal_iff]
    rw [principal_count_eq] at several
    match listed : principals scopes with
    | [] => simp
    | [only] => simpa using eq_comm
    | first :: second :: rest =>
      rw [listed] at several
      simp at several

/-- Whether a step asks for a principal: only an attenuation can leave one out. -/
def Narrowing.asksFor (principal : Text) : Narrowing → Prop
  | .attenuate asked => principalScopePrefix ++ principal ∈ asked
  | .clamp _ => True

/-- One step: the one principal held stays when the step asks for it, and nothing else is
carried, but for a clamp by root, which changes nothing. -/
theorem narrow_principals (held : ScopeSet) (step : Narrowing) :
    ∃ kept, narrow (.scoped held) step = .scoped kept ∧
      ((step = .clamp .root ∧ kept = held) ∨
        ∀ principal, principal ∈ principals kept ↔
          singlePrincipal held = some principal ∧ step.asksFor principal) := by
  cases step with
  | attenuate asked =>
    exact ⟨attenuated held asked, rfl, .inr (mem_principals_attenuated held asked)⟩
  | clamp carried =>
    cases carried with
    | root => exact ⟨held, rfl, .inl ⟨rfl, rfl⟩⟩
    | «scoped» asked =>
      cases single : singlePrincipal held with
      | none =>
        refine ⟨attenuated held asked.items, ?_, .inr fun principal => ?_⟩
        · simp [narrow, clamp, attenuate, attenuated, single]
        · rw [mem_principals_attenuated, single]
          simp
      | some own =>
        refine ⟨(attenuated held asked.items).insert (principalScopePrefix ++ own), ?_,
          .inr fun principal => ?_⟩
        · simp [narrow, clamp, attenuate, attenuated, single]
        · -- the ceiling's own principal is put back, whatever was carried
          obtain ⟨_, named⟩ := single_principal_held held own single
          rw [mem_principals, OrderedSet.mem_insert]
          constructor
          · rintro ⟨same | inside, names⟩
            · rw [same, named] at names
              exact ⟨names, trivial⟩
            · have carried := (mem_principals_attenuated held asked.items principal).mp
                ((mem_principals _ principal).mpr ⟨inside, names⟩)
              rw [single] at carried
              exact ⟨carried.1, trivial⟩
          · rintro ⟨same, _⟩
            cases same
            exact ⟨.inl rfl, named⟩

/-- Whom one step leaves a capability acting for. -/
theorem narrow_single (held kept : ScopeSet) (step : Narrowing)
    (narrowed : narrow (.scoped held) step = .scoped kept) (principal : Text) :
    singlePrincipal kept = some principal ↔
      singlePrincipal held = some principal ∧ step.asksFor principal := by
  obtain ⟨kept', ran, unchanged | carried⟩ := narrow_principals held step
  · rw [narrowed] at ran
    cases ran
    obtain ⟨rfl, rfl⟩ := unchanged
    simp [Narrowing.asksFor]
  · rw [narrowed] at ran
    cases ran
    rw [single_principal_iff_mem]
    constructor
    · intro only
      exact (carried principal).mp ((only principal).mpr rfl)
    · rintro ⟨single, asks⟩ other
      rw [carried other, single]
      constructor
      · rintro ⟨same, _⟩
        exact (Option.some.inj same).symm
      · rintro rfl
        exact ⟨rfl, asks⟩

/-- Whom a chain leaves a capability acting for. -/
theorem narrow_all_single (held kept : ScopeSet) (steps : List Narrowing)
    (narrowed : narrowAll (.scoped held) steps = .scoped kept) (principal : Text) :
    singlePrincipal kept = some principal ↔
      singlePrincipal held = some principal ∧ ∀ step ∈ steps, step.asksFor principal := by
  induction steps generalizing held with
  | nil =>
    cases narrowed
    simp
  | cons step rest ih =>
    obtain ⟨middle, stepped, _⟩ := narrow_scoped held step
    rw [narrowAll, List.foldl_cons, stepped] at narrowed
    rw [ih middle narrowed, narrow_single held middle step stepped, List.forall_mem_cons]
    exact and_assoc

/-- A chain keeps several principals only by changing nothing. -/
theorem narrow_all_several (held kept : ScopeSet) (steps : List Narrowing)
    (narrowed : narrowAll (.scoped held) steps = .scoped kept) (several : 2 ≤ principalCount kept) :
    kept = held ∧ ∀ step ∈ steps, step = .clamp .root := by
  induction steps generalizing held with
  | nil =>
    cases narrowed
    simp
  | cons step rest ih =>
    obtain ⟨middle, stepped, unchanged | carried⟩ := narrow_principals held step
    · obtain ⟨rfl, rfl⟩ := unchanged
      rw [narrowAll, List.foldl_cons, stepped] at narrowed
      obtain ⟨same, clamps⟩ := ih middle narrowed
      exact ⟨same, List.forall_mem_cons.mpr ⟨rfl, clamps⟩⟩
    · rw [narrowAll, List.foldl_cons, stepped] at narrowed
      obtain ⟨rfl, _⟩ := ih middle narrowed
      have few := principal_count_le_one kept (singlePrincipal held) fun principal named =>
        ((carried principal).mp named).1
      omega

/-- What root carries after the first step that is no clamp by root: the one principal that
the step names, if it names one alone. -/
def openedBy (step : Narrowing) : Capability :=
  .scoped (atMostOnePrincipal (.ofList step.brought))

/-- Root stays root until a step names what to keep. -/
theorem narrow_root (step : Narrowing) :
    (step = .clamp .root ∧ narrow .root step = .root) ∨
      (step ≠ .clamp .root ∧ narrow .root step = openedBy step) := by
  cases step with
  | attenuate asked =>
    exact .inr ⟨by simp, rfl⟩
  | clamp carried =>
    cases carried with
    | root => exact .inl ⟨rfl, rfl⟩
    | «scoped» asked =>
      refine .inr ⟨by simp, ?_⟩
      simp [narrow, clamp, attenuate, openedBy, Narrowing.brought]

/-- A scope narrowed from the root was opened by the first step that is no clamp to the root, and
narrowed on by those after it. -/
theorem narrow_all_root (steps : List Narrowing) (kept : ScopeSet)
    (narrowed : narrowAll .root steps = .scoped kept) :
    ∃ before first after, steps = before ++ first :: after ∧
      (∀ step ∈ before, step = .clamp .root) ∧ first ≠ .clamp .root ∧
        narrowAll (openedBy first) after = .scoped kept := by
  induction steps with
  | nil => cases narrowed
  | cons step rest ih =>
    rw [narrowAll, List.foldl_cons] at narrowed
    rcases narrow_root step with ⟨rfl, unchanged⟩ | ⟨narrows, opened⟩
    · rw [unchanged] at narrowed
      obtain ⟨before, first, after, rfl, clamps, narrows, ran⟩ := ih narrowed
      exact ⟨.clamp .root :: before, first, after, rfl,
        List.forall_mem_cons.mpr ⟨rfl, clamps⟩, narrows, ran⟩
    · rw [opened] at narrowed
      exact ⟨[], step, rest, rfl, by simp, narrows, narrowed⟩

/-- A set that root was narrowed to. -/
structure NarrowedRoot (steps : List Narrowing) (kept : ScopeSet) : Prop where
  one : principalCount kept ≤ 1
  named : ∀ principal, singlePrincipal kept = some principal →
    ∃ before first after, steps = before ++ first :: after ∧
      (∀ step ∈ before, step = .clamp .root) ∧
        singlePrincipal (.ofList first.brought) = some principal ∧
          ∀ step ∈ after, step.asksFor principal

/-- So what is left of the root is what the first such step names, narrowed. -/
theorem narrow_all_root_named (steps : List Narrowing) (kept : ScopeSet)
    (narrowed : narrowAll .root steps = .scoped kept) : NarrowedRoot steps kept := by
  obtain ⟨before, first, after, rfl, clamps, _, ran⟩ := narrow_all_root steps kept narrowed
  have opened := mem_principals_at_most_one (.ofList first.brought)
  constructor
  · by_contra several
    obtain ⟨rfl, _⟩ := narrow_all_several _ kept after ran (by omega)
    exact several (principal_count_le_one _ _ fun principal => (opened principal).mp)
  · intro principal single
    obtain ⟨start, asks⟩ := (narrow_all_single _ kept after ran principal).mp single
    have carried := ((single_principal_iff_mem _ principal).mp start principal).mpr rfl
    exact ⟨before, first, after, rfl, clamps, (opened principal).mp carried, asks⟩

/-- The three ways to ask whom a capability with scopes acts for agree. -/
theorem acts_as_iff (held : ScopeSet) (principal : Text) :
    (Capability.scoped held).actsAs principal = true ↔
      (Capability.scoped held).principal = some principal := by
  simp [actsAs, Capability.principal]

/-- A scope that names a principal is allowed exactly to the capability that acts as that
principal. -/
theorem allows_principal_iff (held : ScopeSet) (principal scope : Text)
    (spelled : principalScope principal = .ok scope) :
    (Capability.scoped held).allows scope = true ↔
      (Capability.scoped held).principal = some principal := by
  have checked : (checkPrincipal principal).isOk = true ∧
      scope = principalScopePrefix ++ principal := by
    unfold principalScope at spelled
    cases check : checkPrincipal principal with
    | error refusal =>
      rw [check] at spelled
      cases spelled
    | ok =>
      rw [check] at spelled
      cases spelled
      exact ⟨rfl, rfl⟩
  obtain ⟨well, rfl⟩ := checked
  have stripped : Text.stripPrefix (principalScopePrefix ++ principal) principalScopePrefix =
      some principal :=
    (Text.strip_prefix_eq_some _ _ _).mpr rfl
  have named : principalIn (principalScopePrefix ++ principal) = some principal := by
    simp [principalIn, stripped, well]
  have grants := (principal_in_some _ _ named).2
  simp only [allows, grants, named, Capability.principal, Bool.not_false, Bool.and_true,
    Option.all_some, Bool.and_eq_true, decide_eq_true_eq, beq_iff_eq]
  constructor
  · exact fun both => both.2
  · exact fun single => ⟨(single_principal_held held principal single).1, single⟩

/-- What a chain of narrowings leaves of whom a scope set acts for. -/
structure ActsForItsOwn (held : ScopeSet) (steps : List Narrowing) (result : Capability) :
    Prop where
  /-- Acting as someone, being granted their scope and carrying them as one's principal. -/
  acts : ∀ principal, result.actsAs principal = true ↔ result.principal = some principal
  granted : ∀ principal scope, principalScope principal = .ok scope →
    (result.allows scope = true ↔ result.principal = some principal)
  /-- The one principal of the start, asked for by every attenuation. -/
  own : ∀ principal, result.principal = some principal ↔
    (Capability.scoped held).principal = some principal ∧
      ∀ asked, .attenuate asked ∈ steps → principalScopePrefix ++ principal ∈ asked
  /-- Several principals are none. -/
  several : 2 ≤ principalCount held → result.principal = none
  /-- Several are held only where every step was a clamp by root. -/
  held : ∀ kept, result = .scoped kept → 2 ≤ principalCount kept →
    kept = held ∧ ∀ step ∈ steps, step = .clamp .root

/-- No chain of narrowings acts as someone else: a capability with scopes acts for the one
principal it started with, where every attenuation named it, and root narrowed acts for the
one principal the first narrowing named. -/
theorem no_delegation_acts_as_another (held : ScopeSet) (steps : List Narrowing) :
    ActsForItsOwn held steps ((Capability.scoped held).narrowAll steps) ∧
      ∀ kept, Capability.root.narrowAll steps = .scoped kept → NarrowedRoot steps kept := by
  refine ⟨?_, narrow_all_root_named steps⟩
  obtain ⟨kept, ran, _⟩ := narrow_all_scoped held steps
  have single := narrow_all_single held kept steps ran
  rw [ran]
  refine ⟨acts_as_iff kept, allows_principal_iff kept, ?_, ?_, ?_⟩
  · intro principal
    have asked : (∀ step ∈ steps, step.asksFor principal) ↔
        ∀ asked, .attenuate asked ∈ steps → principalScopePrefix ++ principal ∈ asked := by
      constructor
      · exact fun all asked member => all _ member
      · intro all step member
        cases step with
        | attenuate asked => exact all asked member
        | clamp carried => trivial
    rw [← asked]
    exact single principal
  · intro several
    cases acting : singlePrincipal kept with
    | none => exact acting
    | some principal =>
      have own := ((single principal).mp acting).1
      rw [several_have_no_single held several] at own
      cases own
  · rintro _ ⟨⟩ several
    exact narrow_all_several held kept steps ran several

end Acting

namespace SeveralExample

local instance anyIri : IriSyntax := ⟨fun _ => true, fun _ => []⟩

def first : Text := principalScopePrefix ++ "urn:example:ada".toList

def second : Text := principalScopePrefix ++ "urn:example:ben".toList

/-- Two principals are held through a clamp by root, which changes nothing. -/
theorem clamp_by_root_keeps_several :
    (Capability.scoped (.ofList [first, second])).narrowAll [.clamp .root] =
        .scoped (.ofList [first, second]) ∧
      principalCount (.ofList [first, second]) = 2 := by
  decide

end SeveralExample

end Ikigai.Capability
