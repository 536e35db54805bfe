import Ikigai.AliasViews
import Ikigai.ChainMembers
import Ikigai.EndpointWrappers

/-!
# A reference means its referent

An argument given by reference reaches the endpoint as its contract for the verb says: as the
reference itself, as the text of the name, or as the bytes its referent has. The kernel reads the
referent through the invocation it hands the endpoint's outermost wrapper, before any wrapper has
narrowed it. A view settles nothing; what it forwards to does.
-/

namespace Ikigai

/-- What a reference given to an argument stands for. -/
inductive Meaning where
  | itself
  | text
  | referent
deriving DecidableEq, Repr

/-- Whether a reference is settled, and then whether to the name's text. -/
def Meaning.asName : Meaning → Option Bool
  | itself => none
  | text => some true
  | referent => some false

/-- An input given by value. -/
def ArgSpec.byValue (input : ArgSpec) : Bool := input.source = .argument && !input.readsBody

/-- An input whose value is a name. -/
def ArgSpec.isName (input : ArgSpec) : Bool := input.«class».any isAnyUri

/-- What a reference given to an argument of one action stands for. -/
def ActionSpec.meaning (spec : ActionSpec) (name : Text) : Meaning :=
  let own := spec.inputs.filter fun input => input.name = name
  if own.any fun input => input.byValue && input.isName then .text
  else if own.any ArgSpec.byValue then .referent
  else if own.isEmpty && !spec.arguments.isClosed then .referent
  else .itself

/-- The contract of a verb: its own, and for an undeclared `Exists` that of `Source`. -/
def Description.contractFor (description : Description) (verb : Verb) : Option ActionSpec :=
  let own (verb : Verb) := description.actionSpecs.find? fun spec => spec.verb = verb
  match verb with
  | .«meta» => none
  | .exists => (own .exists).or (own .source)
  | .source | .sink | .delete => own verb

/-- What a reference given to an argument of a request stands for. -/
def Description.meaning (description : Description) (verb : Verb) (name : Text) : Meaning :=
  match description.contractFor verb with
  | some spec => spec.meaning name
  | none => .itself

/-- A table made from each action is read at the contract's action. -/
theorem entry_for_verb_table {τ : Type} (description : Description) (read : ActionSpec → τ)
    (verb : Verb) :
    Floor.entryForVerb (description.actionSpecs.map fun spec => (spec.verb, read spec)) verb =
      (description.contractFor verb).map read := by
  have own := fun verb => Floor.own_table description.actionSpecs read verb
  cases verb with
  | «meta» => rfl
  | «exists» =>
    simp only [Floor.entryForVerb, Description.contractFor, own]
    cases description.actionSpecs.find? fun spec => spec.verb = .exists <;> rfl
  | source =>
    simp only [Floor.entryForVerb, Description.contractFor, own]
    cases description.actionSpecs.find? fun spec => spec.verb = .source <;> rfl
  | sink =>
    simp only [Floor.entryForVerb, Description.contractFor, own]
    cases description.actionSpecs.find? fun spec => spec.verb = .sink <;> rfl
  | delete =>
    simp only [Floor.entryForVerb, Description.contractFor, own]
    cases description.actionSpecs.find? fun spec => spec.verb = .delete <;> rfl

/-- The contract found for a verb is one of the actions, of that verb or, for `Exists`, of
`Source`. -/
theorem contract_for_mem (description : Description) (verb : Verb) (spec : ActionSpec)
    (found : description.contractFor verb = some spec) :
    spec ∈ description.actionSpecs ∧ verb ≠ .«meta» ∧
      (spec.verb = verb ∨ (verb = .exists ∧ spec.verb = .source ∧
        ∀ other ∈ description.actionSpecs, other.verb ≠ .exists)) := by
  have own : ∀ verb, (description.actionSpecs.find? fun spec => spec.verb = verb) = some spec →
      spec ∈ description.actionSpecs ∧ spec.verb = verb := by
    intro verb first
    exact ⟨List.mem_of_find?_eq_some first, by simpa using List.find?_some first⟩
  cases verb with
  | «meta» => cases found
  | source => exact ⟨(own _ found).1, by decide, .inl (own _ found).2⟩
  | sink => exact ⟨(own _ found).1, by decide, .inl (own _ found).2⟩
  | delete => exact ⟨(own _ found).1, by decide, .inl (own _ found).2⟩
  | «exists» =>
    rcases Option.or_eq_some_iff.mp found with first | ⟨none, first⟩
    · exact ⟨(own _ first).1, by decide, .inl (own _ first).2⟩
    · refine ⟨(own _ first).1, by decide, .inr ⟨rfl, (own _ first).2, ?_⟩⟩
      simpa using none

/-- A verb's argument set is open in the floor exactly when it is in the contract. -/
theorem open_iff (description : Description) (verb : Verb) (spec : ActionSpec)
    (member : spec ∈ description.actionSpecs) (own : spec.verb = verb) :
    verb ∈ (Floor.of description).openArguments ↔ spec.arguments.isClosed = false := by
  simp only [Floor.of, List.mem_map, List.mem_filter, Bool.not_eq_true']
  constructor
  · rintro ⟨other, ⟨listed, opens⟩, same⟩
    rw [description.action_specs_agree spec other member listed (own.trans same.symm)]
    exact opens
  · intro opens
    exact ⟨spec, ⟨member, opens⟩, own⟩

/-- Whether the argument set of a verb's contract is open. -/
def Description.openFor (description : Description) (verb : Verb) : Bool :=
  (description.contractFor verb).any fun spec => !spec.arguments.isClosed

/-- What the floor takes for an open argument set is the contract's. -/
theorem open_for_eq (description : Description) (verb : Verb) :
    (if verb = .«meta» then false
      else if verb ∈ (Floor.of description).openArguments then true
      else if verb = .exists && !(Floor.of description).declared.any fun entry => entry.1 = .exists then
        decide (.source ∈ (Floor.of description).openArguments)
      else false) = description.openFor verb := by
  have declared : ((Floor.of description).declared.any fun entry => entry.1 = .exists) =
      description.actionSpecs.any fun spec => spec.verb = .exists := by
    simp [Floor.of, List.any_map, Function.comp_def]
  have without : ∀ verb, (description.actionSpecs.find? fun spec => spec.verb = verb) = none →
      verb ∉ (Floor.of description).openArguments := by
    intro verb none member
    simp only [Floor.of, List.mem_map, List.mem_filter] at member
    obtain ⟨spec, ⟨listed, _⟩, own⟩ := member
    exact absurd own (by simpa using List.find?_eq_none.mp none spec listed)
  rw [Description.openFor]
  cases found : description.contractFor verb with
  | none =>
    by_cases asks : verb = .«meta»
    · rw [if_pos asks]
      rfl
    · have missing : verb ∉ (Floor.of description).openArguments ∧
          (verb = .exists → .source ∉ (Floor.of description).openArguments) := by
        cases verb with
        | «meta» => exact absurd rfl asks
        | source => exact ⟨without _ found, fun same => by cases same⟩
        | sink => exact ⟨without _ found, fun same => by cases same⟩
        | delete => exact ⟨without _ found, fun same => by cases same⟩
        | «exists» =>
          obtain ⟨first, second⟩ := Option.or_eq_none_iff.mp found
          exact ⟨without _ first, fun _ => without _ second⟩
      rw [if_neg asks, if_neg missing.1]
      split
      · rename_i exists_
        rw [Bool.and_eq_true, decide_eq_true_eq] at exists_
        exact decide_eq_false (missing.2 exists_.1)
      · rfl
  | some spec =>
    obtain ⟨member, act, own | ⟨rfl, source, undeclared⟩⟩ :=
      contract_for_mem description verb spec found
    · have opens := open_iff description verb spec member own
      rw [if_neg act]
      cases closed : spec.arguments.isClosed with
      | false =>
        rw [if_pos (opens.mpr closed)]
        simp [closed]
      | true =>
        have shut : verb ∉ (Floor.of description).openArguments := by
          rw [opens, closed]
          decide
        have known : verb = .exists →
            ((Floor.of description).declared.any fun entry => entry.1 = .exists) = true := by
          intro same
          rw [declared, List.any_eq_true]
          exact ⟨spec, member, decide_eq_true (own.trans same)⟩
        rw [if_neg shut, if_neg]
        · simp [closed]
        · rw [Bool.and_eq_true, decide_eq_true_eq]
          rintro ⟨same, missing⟩
          rw [known same] at missing
          cases missing
    · have opens := open_iff description .source spec member source
      have shut : .exists ∉ (Floor.of description).openArguments := by
        refine without .exists (List.find?_eq_none.mpr fun other listed => ?_)
        simpa using undeclared other listed
      have missing : ((Floor.of description).declared.any fun entry => entry.1 = .exists) =
          false := by
        rw [declared, List.any_eq_false]
        intro other listed
        simpa using undeclared other listed
      rw [if_neg act, if_neg shut, if_pos (by rw [missing]; rfl)]
      cases closed : spec.arguments.isClosed with
      | false => simpa [closed] using opens.mpr closed
      | true =>
        have other : .source ∉ (Floor.of description).openArguments := by
          rw [opens, closed]
          decide
        simpa [closed] using other

/-- The names of the inputs given by value, of those that are names or of the others. -/
theorem mem_by_value (spec : ActionSpec) (nameLike : Bool) (name : Text) :
    name ∈ (((spec.inputs.filter fun input => input.source = .argument).filter fun input =>
        !input.readsBody).filter fun input =>
          (input.«class».any isAnyUri) == nameLike).map ArgSpec.name ↔
      ((spec.inputs.filter fun input => input.name = name).any fun input =>
        input.byValue && input.isName == nameLike) = true := by
  simp only [List.mem_map, List.mem_filter, List.any_eq_true, ArgSpec.byValue, ArgSpec.isName,
    decide_eq_true_eq, Bool.and_eq_true]
  constructor
  · rintro ⟨input, ⟨⟨⟨member, source⟩, body⟩, like⟩, rfl⟩
    exact ⟨input, ⟨member, rfl⟩, ⟨source, body⟩, like⟩
  · rintro ⟨input, ⟨member, rfl⟩, ⟨source, body⟩, like⟩
    exact ⟨input, ⟨⟨⟨member, source⟩, body⟩, like⟩, rfl⟩

/-- What a reference becomes, from what its argument's name is among. -/
theorem References.settles_of (references : References) (name : Text) (named valued new : Bool)
    (names : name ∈ references.names ↔ named = true)
    (values : name ∈ references.values ↔ valued = true)
    (declared : name ∈ references.declared ↔ new = false) :
    references.settles name =
      if named then some true
      else if valued || (references.«open» && new) then some false
      else none := by
  rw [settles, if_congr names rfl rfl]
  have clause : (decide (name ∈ references.values) ||
      (references.«open» && !decide (name ∈ references.declared))) =
        (valued || (references.«open» && new)) := by
    have first : decide (name ∈ references.values) = valued := by
      rw [Bool.eq_iff_iff, decide_eq_true_eq, values]
    have second : decide (name ∈ references.declared) = !new := by
      rw [Bool.eq_iff_iff, decide_eq_true_eq, declared]
      cases new <;> decide
    rw [first, second, Bool.not_not]
  rw [if_congr (Iff.of_eq (congrArg (· = true) clause)) rfl rfl]

/-- A contract that settles nothing is left out. -/
theorem settles_some_or_none (names values declared : Readers) (isOpen : Bool) (name : Text) :
    ((if !isOpen && names.isEmpty && values.isEmpty then none
      else some (⟨names, values, declared, isOpen⟩ : References)).bind fun references =>
        references.settles name) = References.settles ⟨names, values, declared, isOpen⟩ name := by
  split
  · rename_i nothing
    simp only [Bool.and_eq_true, Bool.not_eq_true', List.isEmpty_iff] at nothing
    obtain ⟨⟨rfl, rfl⟩, rfl⟩ := nothing
    rfl
  · rfl

/-- The kernel settles a reference as the contract for the verb says. -/
theorem settles_meaning (description : Description) (verb : Verb) (name : Text) :
    (((Floor.of description).references verb).bind fun references => references.settles name) =
      (description.meaning verb name).asName := by
  have names : Floor.readersFor (Floor.of description).nameInputs verb =
      ((description.contractFor verb).map fun spec =>
        (((spec.inputs.filter fun input => input.source = .argument).filter fun input =>
          !input.readsBody).filter fun input =>
            (input.«class».any isAnyUri) == true).map ArgSpec.name).getD [] := by
    rw [← entry_for_verb_table]
    rfl
  have values : Floor.readersFor (Floor.of description).valueInputs verb =
      ((description.contractFor verb).map fun spec =>
        (((spec.inputs.filter fun input => input.source = .argument).filter fun input =>
          !input.readsBody).filter fun input =>
            (input.«class».any isAnyUri) == false).map ArgSpec.name).getD [] := by
    rw [← entry_for_verb_table]
    rfl
  have declared : Floor.readersFor (Floor.of description).allInputs verb =
      ((description.contractFor verb).map fun spec => spec.inputs.map ArgSpec.name).getD [] := by
    rw [← entry_for_verb_table]
    rfl
  have opens := open_for_eq description verb
  have settled : (((Floor.of description).references verb).bind fun references =>
      references.settles name) =
      References.settles ⟨Floor.readersFor (Floor.of description).nameInputs verb,
        Floor.readersFor (Floor.of description).valueInputs verb,
        Floor.readersFor (Floor.of description).allInputs verb, description.openFor verb⟩ name := by
    rw [← opens, Floor.references]
    exact settles_some_or_none _ _ _ _ name
  rw [settled, names, values, declared, Description.openFor, Description.meaning]
  cases description.contractFor verb with
  | none => rfl
  | some spec =>
    have undeclared : (name ∈ spec.inputs.map ArgSpec.name) ↔
        (spec.inputs.filter fun input => input.name = name).isEmpty = false := by
      simp [List.mem_map]
    have byName := mem_by_value spec true name
    have byOther := mem_by_value spec false name
    generalize ownEq : (spec.inputs.filter fun input => input.name = name) = own
    rw [ownEq] at undeclared byName byOther
    have likeName : (own.any fun input => input.byValue && input.isName == true) =
        own.any fun input => input.byValue && input.isName := by
      congr 1
      funext input
      rw [beq_true]
    rw [likeName] at byName
    have settles := References.settles_of ⟨_, _, spec.inputs.map ArgSpec.name,
      !spec.arguments.isClosed⟩ name _ _ _ byName byOther undeclared
    refine settles.trans ?_
    dsimp only
    rw [ActionSpec.meaning, ownEq]
    cases named : own.any fun input => input.byValue && input.isName with
    | true => rfl
    | false =>
      -- with no name among them, the inputs given by value are those that are no names
      have unnamed : (own.any fun input => input.byValue && input.isName == false) =
          own.any ArgSpec.byValue := by
        rw [Bool.eq_iff_iff, List.any_eq_true, List.any_eq_true]
        constructor
        · rintro ⟨input, member, both⟩
          exact ⟨input, member, (Bool.and_eq_true_iff.mp both).1⟩
        · rintro ⟨input, member, byValue⟩
          have plain := List.any_eq_false.mp named input member
          rw [byValue, Bool.true_and, Bool.not_eq_true] at plain
          exact ⟨input, member, by rw [byValue, plain]; rfl⟩
      rw [unnamed]
      cases own.any ArgSpec.byValue with
      | true => rfl
      | false => cases own.isEmpty <;> cases spec.arguments.isClosed <;> rfl

namespace EndpointObject

variable {σ ω : Type} [Blake3]

/-- One argument as its contract means it, a referent read in an invocation. -/
def seen (outside : Outside σ ω) (own : Invocation σ) (meaning : Text → Meaning)
    (arg : Text × ArgRef) : Effect ω (Text × ArgRef) :=
  match arg.2 with
  | .inline _ | .content _ => pure arg
  | .reference target =>
    match meaning arg.1 with
    | .itself => pure arg
    | .text => pure (arg.1, .inline (Text.asBytes target))
    | .referent => do
      let bytes ← ExceptT.adapt (referentError ⟨arg.1, target, false⟩) (sourced outside own target)
      pure (arg.1, .inline bytes)

omit [Blake3] in
/-- The references to settle are those that mean something else than themselves. -/
theorem pending_cons (verb : Verb) (target : Iri) (arg : Text × ArgRef)
    (rest : List (Text × ArgRef)) (references : Option References) :
    pendingReferences ⟨verb, target, arg :: rest⟩ references =
      pendingReferences ⟨verb, target, [arg]⟩ references ++
        pendingReferences ⟨verb, target, rest⟩ references := by
  cases references with
  | none => rfl
  | some references =>
    simp only [pendingReferences]
    rw [← List.filterMap_append]
    rfl

omit [Blake3] in
/-- Replacing an argument's value leaves the arguments before and behind it, since no name is
there twice. -/
theorem replaced_between (done rest : List (Text × ArgRef)) (name : Text) (value : ArgRef)
    (bytes : List UInt8) (once : ((done ++ (name, value) :: rest).map Prod.fst).Nodup) :
    replaced (done ++ (name, value) :: rest) name bytes =
      (done ++ [(name, .inline bytes)]) ++ rest := by
  have apart : ∀ arg ∈ done ++ rest, arg.1 ≠ name := by
    intro arg member same
    have moved : ((name, value) :: (done ++ rest)).map Prod.fst |>.Nodup :=
      (List.perm_middle.map Prod.fst).nodup_iff.mp once
    rw [List.map_cons, List.nodup_cons] at moved
    exact moved.1 (List.mem_map.mpr ⟨arg, member, same⟩)
  have kept : ∀ args : List (Text × ArgRef), (∀ arg ∈ args, arg.1 ≠ name) →
      args.map (fun arg => if arg.1 = name then (name, .inline bytes) else arg) = args := by
    intro args other
    exact (List.map_congr_left fun arg member => if_neg (other arg member)).trans (List.map_id' _)
  rw [replaced, List.map_append, List.map_cons, if_pos rfl,
    kept done fun arg member => apart arg (List.mem_append_left _ member),
    kept rest fun arg member => apart arg (List.mem_append_right _ member), List.append_assoc]
  rfl

/-- An argument that is none of the pending ones is kept. -/
theorem pending_kept (outside : Outside σ ω) (inv : Invocation σ) (meaning : Text → Meaning)
    (references : Option References)
    (says_ : ∀ name, (references.bind fun references => references.settles name) =
      (meaning name).asName)
    (verb : Verb) (target : Iri) (arg : Text × ArgRef) :
    (pendingReferences ⟨verb, target, [arg]⟩ references = [] ∧
      seen outside inv meaning arg = pure arg) ∨
    ∃ pending, pendingReferences ⟨verb, target, [arg]⟩ references = [pending] ∧
      pending.argument = arg.1 ∧
      seen outside inv meaning arg =
        settledValue outside inv pending >>= fun bytes => pure (arg.1, .inline bytes) := by
  obtain ⟨name, value⟩ := arg
  have own := says_ name
  cases value with
  | inline bytes =>
    refine .inl ⟨?_, rfl⟩
    cases references <;> rfl
  | content digest =>
    refine .inl ⟨?_, rfl⟩
    cases references <;> rfl
  | reference referent =>
    have listed : pendingReferences ⟨verb, target, [(name, .reference referent)]⟩ references =
        (((meaning name).asName).map fun asName =>
          (⟨name, referent, asName⟩ : PendingReference)).toList := by
      rw [← own]
      cases references with
      | none => rfl
      | some references =>
        simp only [pendingReferences, List.filterMap_cons, List.filterMap_nil, Option.bind_some]
        cases references.settles name <;> rfl
    rw [listed]
    cases means : meaning name with
    | itself => exact .inl ⟨rfl, by simp only [seen, means]⟩
    | text =>
      refine .inr ⟨⟨name, referent, true⟩, rfl, rfl, ?_⟩
      simp only [seen, means, settledValue, if_pos, pure_bind]
    | referent =>
      refine .inr ⟨⟨name, referent, false⟩, rfl, rfl, ?_⟩
      simp only [seen, means, settledValue, Bool.false_eq_true, if_false]

/-- Settling what is pending, argument after argument, hands each argument as its contract means
it. -/
theorem settled_args_eq (outside : Outside σ ω) (inv : Invocation σ) (meaning : Text → Meaning)
    (references : Option References)
    (says_ : ∀ name, (references.bind fun references => references.settles name) =
      (meaning name).asName)
    (verb : Verb) (target : Iri) (done rest : List (Text × ArgRef))
    (once : ((done ++ rest).map Prod.fst).Nodup) :
    settledArgs outside inv (pendingReferences ⟨verb, target, rest⟩ references) (done ++ rest) =
      (rest.mapM (seen outside inv meaning) >>= fun rest => pure (done ++ rest)) := by
  induction rest generalizing done with
  | nil =>
    have none : pendingReferences ⟨verb, target, []⟩ references = [] := by
      cases references <;> rfl
    rw [none, List.mapM_nil, pure_bind]
    rfl
  | cons arg rest ih =>
    have whole : ∀ other : Text × ArgRef, other.1 = arg.1 →
        (((done ++ [other]) ++ rest).map Prod.fst).Nodup := by
      intro other same
      rw [List.append_assoc, List.map_append, List.singleton_append, List.map_cons, same]
      rwa [List.map_append, List.map_cons] at once
    have further : ∀ other : Text × ArgRef, other.1 = arg.1 →
        settledArgs outside inv (pendingReferences ⟨verb, target, rest⟩ references)
            ((done ++ [other]) ++ rest) =
          (rest.mapM (seen outside inv meaning) >>= fun rest => pure (done ++ other :: rest)) := by
      intro other same
      rw [ih _ (whole other same)]
      simp only [List.append_assoc, List.singleton_append]
    rw [pending_cons, List.mapM_cons]
    rcases pending_kept outside inv meaning references says_ verb target arg with
      ⟨none, kept⟩ | ⟨pending, one, named, value⟩
    · have next := further arg rfl
      rw [List.append_assoc, List.singleton_append] at next
      rw [none, List.nil_append, next, kept]
      simp only [pure_bind, bind_assoc]
    · rw [one, value, List.singleton_append, settledArgs]
      simp only [bind_assoc, pure_bind]
      congr 1
      funext bytes
      rw [named, replaced_between done rest arg.1 arg.2 bytes once]
      exact further (arg.1, .inline bytes) rfl

section Entering

variable [Space σ]

/-- What the kernel enters an endpoint in a stack with, past the settling and the stack. -/
def entered (outside : Outside σ ω) (wrappers : List (Wrapper σ))
    (pending : List PendingReference) (inv : Invocation σ) : Effect ω (Invocation σ) := do
  let args ← settledArgs outside inv pending inv.request.args
  modify (Wrapper.hung wrappers)
  pure (Wrapper.derived wrappers (inv.withRequest { inv.request with args := args }))

/-- The references of a request that are pending before an endpoint: none before a forwarder. -/
def pendingBefore (endpoint : EndpointObject σ ω) (request : Request)
    (references : Option References) : List PendingReference :=
  if endpoint.forwards.isSome then [] else pendingReferences request references

/-- The face a stack answers a body through. -/
def bodyFace (wrappers : List (Wrapper σ)) (object : EndpointObject σ ω) (own : Invocation σ) :
    Effect ω Representation :=
  if wrappers.any Wrapper.confines then Buffered.intoBody <$> object.invoke own
  else object.invokeBody own

/-- What becomes of the answer where a stale one was offered. -/
def finished (offer : Option OfferedAnswer) (answer : Representation) :
    Effect ω Representation :=
  match offer with
  | none => pure answer
  | some offer => refreshed offer answer

/-- What is done behind wrappers goes on behind them. -/
theorem behind_bind {α β : Type} (wrappers : List (Wrapper σ)) (act : Effect ω α)
    (next : α → Effect ω β) :
    Wrapper.behind wrappers act >>= next = Wrapper.behind wrappers (act >>= next) := by
  rw [Wrapper.behind, bind_assoc]
  rfl

/-- Entering with no argument to settle only derives the invocation. -/
theorem entered_nothing (outside : Outside σ ω) (wrappers : List (Wrapper σ))
    (inv : Invocation σ) :
    entered outside wrappers [] inv =
      Wrapper.behind wrappers (pure (Wrapper.derived wrappers inv)) := by
  rw [entered, settledArgs, pure_bind]
  rfl

/-- The body face of wrapped endpoints is that of the inner one, on the invocation they derive. -/
theorem wrapped_body_face (wrappers : List (Wrapper σ)) (object : EndpointObject σ ω)
    (inv : Invocation σ) :
    (Wrapper.wrapAll wrappers object).invokeBody inv =
      Wrapper.behind wrappers (bodyFace wrappers object (Wrapper.derived wrappers inv)) := by
  unfold bodyFace
  split
  · rename_i confines
    exact Wrapper.wrap_all_confined wrappers object inv (List.any_eq_true.mp confines)
  · rename_i open_
    refine Wrapper.wrap_all_invoke_body wrappers object inv fun wrapper member => ?_
    by_contra confines
    rw [Bool.not_eq_false] at confines
    exact open_ (List.any_eq_true.mpr ⟨wrapper, member, confines⟩)

/-- The kernel enters an endpoint with its pending references settled, those of a forwarder left as
they are, and hands on what its stack's face answers. -/
theorem invoked_through (outside : Outside σ ω) (wrappers : List (Wrapper σ))
    (object : EndpointObject σ ω) (inv : Invocation σ) (references : Option References)
    (offer : Option OfferedAnswer) :
    (settleReferences outside (Wrapper.wrapAll wrappers object) inv.request references
        offer).invokeBody inv =
      entered outside wrappers (pendingBefore object inv.request references) inv >>= fun own =>
        bodyFace wrappers object own >>= finished offer := by
  have plain : (settledByContract outside (Wrapper.wrapAll wrappers object) inv.request
      references).invokeBody inv =
      entered outside wrappers (pendingBefore object inv.request references) inv >>=
        bodyFace wrappers object := by
    have direct : (Wrapper.wrapAll wrappers object).invokeBody inv =
        entered outside wrappers [] inv >>= bodyFace wrappers object := by
      rw [wrapped_body_face, entered_nothing, behind_bind, pure_bind]
    rw [settledByContract, pendingBefore, Wrapper.wrap_all_forwards]
    cases object.forwards with
    | some forward =>
      rw [Option.isSome_some, Bool.or_true, if_pos rfl, if_pos rfl]
      exact direct
    | none =>
      rw [Option.isSome_none, Bool.or_false, if_neg Bool.false_ne_true]
      cases pending : pendingReferences inv.request references with
      | nil => exact direct
      | cons first rest =>
        rw [List.isEmpty_cons, if_neg Bool.false_ne_true, settling]
        simp only [entered, bind_assoc, pure_bind]
        congr 1
        funext args
        exact wrapped_body_face wrappers object _
  cases offer with
  | none =>
    have last : (fun own => bodyFace wrappers object own >>= finished none) =
        bodyFace wrappers object := by
      funext own
      exact bind_pure _
    rw [last]
    exact plain
  | some offer =>
    have whole : (settleReferences outside (Wrapper.wrapAll wrappers object) inv.request
        references (some offer)).invokeBody inv =
        (settledByContract outside (Wrapper.wrapAll wrappers object) inv.request
          references).invokeBody inv >>= refreshed offer :=
      rfl
    rw [whole, plain, bind_assoc]
    rfl

/-- What an endpoint in a stack is meant to be entered with: each argument as the contract means
it, and each referent as the endpoint itself would get it. -/
def meant (outside : Outside σ ω) (wrappers : List (Wrapper σ)) (meaning : Text → Meaning)
    (inv : Invocation σ) : Effect ω (Invocation σ) := do
  let args ← inv.request.args.mapM (seen outside (Wrapper.derived wrappers inv) meaning)
  modify (Wrapper.hung wrappers)
  pure (Wrapper.derived wrappers (inv.withRequest { inv.request with args := args }))

/-- What an argument of a request to a stack around an endpoint means. -/
def meaningOf (wrappers : List (Wrapper σ)) (object : EndpointObject σ ω) (verb : Verb) :
    Text → Meaning :=
  (Wrapper.wrapAll wrappers object).describe.meaning verb

/-- How the kernel settles the references of a request, by the floor of what it resolved. -/
def referencesOf (wrappers : List (Wrapper σ)) (object : EndpointObject σ ω) (verb : Verb) :
    Option References :=
  (Floor.of (Wrapper.wrapAll wrappers object).describe).references verb

/-- A request whose arguments are a map. -/
def OneEach (request : Request) : Prop := (request.args.map Prod.fst).Nodup

/-- The kernel hands each argument as its contract means it, but reads the referents in the
invocation the outermost wrapper is handed. -/
theorem entered_eq (outside : Outside σ ω) (wrappers : List (Wrapper σ))
    (object : EndpointObject σ ω) (answers : object.forwards = none) (inv : Invocation σ)
    (once : OneEach inv.request) :
    entered outside wrappers
        (pendingBefore object inv.request (referencesOf wrappers object inv.request.verb)) inv =
      (do
        let args ← inv.request.args.mapM
          (seen outside inv (meaningOf wrappers object inv.request.verb))
        modify (Wrapper.hung wrappers)
        pure (Wrapper.derived wrappers (inv.withRequest { inv.request with args := args }))) := by
  have settled := settled_args_eq outside inv (meaningOf wrappers object inv.request.verb)
    (referencesOf wrappers object inv.request.verb)
    (settles_meaning _ inv.request.verb) inv.request.verb inv.request.target [] inv.request.args once
  have pending : pendingBefore object inv.request (referencesOf wrappers object inv.request.verb) =
      pendingReferences inv.request (referencesOf wrappers object inv.request.verb) := by
    rw [pendingBefore, answers]
    rfl
  have all : settledArgs outside inv
      (pendingReferences inv.request (referencesOf wrappers object inv.request.verb))
        inv.request.args =
      inv.request.args.mapM (seen outside inv (meaningOf wrappers object inv.request.verb)) := by
    refine settled.trans ?_
    simp only [List.nil_append, bind_pure]
  rw [pending, entered, all]

/-- A stack that reads nothing elsewhere: none of it confines, or no argument's referent is read. -/
def ReadsInPlace (wrappers : List (Wrapper σ)) (meaning : Text → Meaning) (request : Request) :
    Prop :=
  (∀ wrapper ∈ wrappers, wrapper.confines = false) ∨
    ∀ name target, (name, .reference target) ∈ request.args → meaning name ≠ .referent

/-- Wrappers that confine nothing derive the invocation they are given. -/
theorem derived_unconfined (wrappers : List (Wrapper σ)) (inv : Invocation σ)
    (open_ : ∀ wrapper ∈ wrappers, wrapper.confines = false) :
    Wrapper.derived wrappers inv = inv := by
  induction wrappers with
  | nil => rfl
  | cons wrapper rest ih =>
    rw [List.forall_mem_cons] at open_
    have first : wrapper.derive inv = inv := by
      cases wrapper with
      | confine => cases open_.1
      | threaded => rfl
      | projected => rfl
    rw [Wrapper.derived, List.foldl_cons, first]
    exact ih open_.2

omit [Space σ] in
/-- What is not read does not depend on where it would be. -/
theorem seen_unread (outside : Outside σ ω) (inv own : Invocation σ) (meaning : Text → Meaning)
    (arg : Text × ArgRef)
    (unread : ∀ target, arg.2 = .reference target → meaning arg.1 ≠ .referent) :
    seen outside inv meaning arg = seen outside own meaning arg := by
  obtain ⟨name, value⟩ := arg
  cases value with
  | inline bytes => rfl
  | content digest => rfl
  | reference target =>
    have other := unread target rfl
    simp only [seen]
    cases means : meaning name with
    | itself => rfl
    | text => rfl
    | referent => exact absurd means other

omit [Blake3] [Space σ] in
/-- Two readings that agree on each item agree on all, in order. -/
theorem map_alike {α β : Type} (left right : α → Effect ω β) (items : List α)
    (alike : ∀ item ∈ items, left item = right item) : items.mapM left = items.mapM right := by
  induction items with
  | nil => rfl
  | cons item items ih =>
    rw [List.forall_mem_cons] at alike
    rw [List.mapM_cons, List.mapM_cons, alike.1, ih alike.2]

/-- Where nothing is read elsewhere, the endpoint is entered as it is meant to be. -/
theorem meant_of_in_place (outside : Outside σ ω) (wrappers : List (Wrapper σ))
    (object : EndpointObject σ ω) (answers : object.forwards = none) (inv : Invocation σ)
    (once : OneEach inv.request)
    (place : ReadsInPlace wrappers (meaningOf wrappers object inv.request.verb) inv.request) :
    entered outside wrappers
        (pendingBefore object inv.request (referencesOf wrappers object inv.request.verb)) inv =
      meant outside wrappers (meaningOf wrappers object inv.request.verb) inv := by
  have alike : ∀ arg ∈ inv.request.args,
      seen outside inv (meaningOf wrappers object inv.request.verb) arg =
        seen outside (Wrapper.derived wrappers inv)
          (meaningOf wrappers object inv.request.verb) arg := by
    rintro ⟨name, value⟩ member
    rcases place with open_ | unread
    · rw [derived_unconfined wrappers inv open_]
    · refine seen_unread outside inv _ _ _ fun target same => ?_
      dsimp only at same
      exact unread name target (same ▸ member)
  rw [entered_eq outside wrappers object answers inv once, meant, map_alike _ _ _ alike]

omit [Space σ] in
/-- A confined scope is severed. -/
theorem confine_severed (scope : Scope σ) (name : Iri) (space : σ) :
    (scope.confine name space).isSevered = true := by
  rw [Scope.severed_eq, Scope.confine, Scope.core_edit]
  rfl

/-- A chain that was severed stays so. -/
theorem derived_severed (wrappers : List (Wrapper σ)) (inv : Invocation σ)
    (severed : inv.scope.isSevered = true) :
    (Wrapper.derived wrappers inv).scope.isSevered = true := by
  induction wrappers generalizing inv with
  | nil => exact severed
  | cons wrapper rest ih =>
    apply ih
    cases wrapper with
    | confine name space => exact confine_severed _ _ _
    | threaded => exact severed
    | projected => exact severed

/-- What runs behind a confinement runs in a severed chain. -/
theorem derived_confined (wrappers : List (Wrapper σ)) (inv : Invocation σ)
    (confined : ∃ wrapper ∈ wrappers, wrapper.confines = true) :
    (Wrapper.derived wrappers inv).scope.isSevered = true := by
  induction wrappers generalizing inv with
  | nil =>
    obtain ⟨_, member, _⟩ := confined
    cases member
  | cons wrapper rest ih =>
    cases wrapper with
    | confine name space => exact derived_severed rest _ (confine_severed _ _ _)
    | threaded thread =>
      apply ih
      obtain ⟨own, member, confines⟩ := confined
      rcases List.mem_cons.mp member with rfl | member
      · cases confines
      · exact ⟨own, member, confines⟩
    | projected description =>
      apply ih
      obtain ⟨own, member, confines⟩ := confined
      rcases List.mem_cons.mp member with rfl | member
      · cases confines
      · exact ⟨own, member, confines⟩

/-- An empty text. -/
def nothingSaid : Representation := ⟨⟨[], []⟩, .bytes [], .always, OrderedSet.empty, none, false⟩

/-- A kernel where each name answers with an empty text, but in a severed chain none does. -/
def rootOnly : Outside σ ω where
  answer := fun inv request cells rest =>
    ((if inv.scope.isSevered then .error (.unresolved request.target) else .ok nothingSaid, .none),
      cells, rest)
  chunks := fun _ rest => ([], rest)

/-- An effect comes to a value from every state. -/
def Succeeds {α : Type} (act : Effect ω α) : Prop :=
  ∀ state, ∃ value after, act.run.run state = (.ok value, after)

/-- An effect fails from every state. -/
def Fails {α : Type} (act : Effect ω α) : Prop :=
  ∀ state, ∃ error after, act.run.run state = (.error error, after)

omit [Blake3] [Space σ] in
/-- What succeeds and then succeeds on any value succeeds. -/
theorem Succeeds.bind {α β : Type} {act : Effect ω α} {next : α → Effect ω β}
    (first : Succeeds act) (then_ : ∀ value, Succeeds (next value)) : Succeeds (act >>= next) := by
  intro state
  obtain ⟨value, after, came⟩ := first state
  rw [Effect.run_bind_ok came]
  exact then_ value after

omit [Blake3] [Space σ] in
/-- What fails fails whatever was to follow. -/
theorem Fails.bind {α β : Type} {act : Effect ω α} (next : α → Effect ω β) (fails : Fails act) :
    Fails (act >>= next) := by
  intro state
  obtain ⟨error, after, came⟩ := fails state
  exact ⟨error, after, Effect.run_bind_error came next⟩

omit [Blake3] [Space σ] in
/-- What fails on every value fails, whether or not it gets that far. -/
theorem fails_after {α β : Type} (act : Effect ω α) {next : α → Effect ω β}
    (fails : ∀ value, Fails (next value)) : Fails (act >>= next) := by
  intro state
  cases came : act.run.run state with
  | mk result after =>
    cases result with
    | error error => exact ⟨error, after, Effect.run_bind_error came next⟩
    | ok value =>
      rw [Effect.run_bind_ok came]
      exact fails value after

omit [Space σ] in
/-- At the root every name is read. -/
theorem sourced_at_root (inv : Invocation σ) (target : Iri)
    (rooted : inv.scope.isSevered = false) :
    Succeeds (sourced rootOnly inv target : Effect ω (List UInt8)) := by
  intro state
  let issued := (inv.issueBody rootOnly (Request.new .source target)).run.run state
  have came : issued = (.ok nothingSaid, issued.2) := by
    refine Prod.ext ?_ rfl
    change (if inv.scope.isSevered then Except.error (Error.unresolved target)
      else .ok nothingSaid) = _
    rw [rooted]
    rfl
  exact ⟨[], _, Effect.run_bind_ok came _⟩

omit [Space σ] in
/-- In a severed chain none is. -/
theorem sourced_severed (inv : Invocation σ) (target : Iri)
    (severed : inv.scope.isSevered = true) :
    Fails (sourced rootOnly inv target : Effect ω (List UInt8)) := by
  apply Fails.bind
  intro state
  refine ⟨.unresolved target, _, Prod.ext ?_ rfl⟩
  change (if inv.scope.isSevered then Except.error (Error.unresolved target)
    else .ok nothingSaid) = _
  rw [severed]
  rfl

omit [Blake3] [Space σ] in
/-- Changing the error of what is done changes neither what it does nor its value. -/
theorem run_adapt {α : Type} (change : Error → Error) (act : Effect ω α) (state : RunState ω) :
    (ExceptT.adapt change act).run.run state =
      ((act.run.run state).1.mapError change, (act.run.run state).2) :=
  rfl

omit [Space σ] in
/-- In a scope that is not severed every argument can be seen. -/
theorem seen_at_root (inv : Invocation σ) (meaning : Text → Meaning) (arg : Text × ArgRef)
    (rooted : inv.scope.isSevered = false) :
    Succeeds (seen rootOnly inv meaning arg : Effect ω (Text × ArgRef)) := by
  obtain ⟨name, value⟩ := arg
  have kept : ∀ value : Text × ArgRef, Succeeds (pure value : Effect ω (Text × ArgRef)) :=
    fun value state => ⟨value, state, rfl⟩
  cases value with
  | inline bytes => exact kept _
  | content digest => exact kept _
  | reference target =>
    simp only [seen]
    cases meaning name with
    | itself => exact kept _
    | text => exact kept _
    | referent =>
      refine Succeeds.bind (fun state => ?_) fun bytes => kept _
      obtain ⟨value, after, came⟩ := sourced_at_root inv target rooted state
      exact ⟨value, after, by rw [run_adapt, came]; rfl⟩

omit [Space σ] in
/-- So are all arguments. -/
theorem all_seen_at_root (inv : Invocation σ) (meaning : Text → Meaning)
    (args : List (Text × ArgRef)) (rooted : inv.scope.isSevered = false) :
    
    Succeeds (args.mapM (seen rootOnly inv meaning) : Effect ω (List (Text × ArgRef))) := by
  induction args with
  | nil => exact fun state => ⟨[], state, rfl⟩
  | cons arg args ih =>
    rw [List.mapM_cons]
    refine Succeeds.bind (seen_at_root inv meaning arg rooted) fun first => ?_
    exact Succeeds.bind ih fun rest state => ⟨first :: rest, state, rfl⟩

omit [Space σ] in
/-- A referent that is read in a severed chain fails the whole. -/
theorem not_seen_severed (inv : Invocation σ) (meaning : Text → Meaning)
    (args : List (Text × ArgRef)) (severed : inv.scope.isSevered = true) (name : Text)
    (target : Iri) (member : (name, .reference target) ∈ args)
    (read : meaning name = .referent) :
    Fails (args.mapM (seen rootOnly inv meaning) : Effect ω (List (Text × ArgRef))) := by
  induction args with
  | nil => cases member
  | cons arg args ih =>
    rw [List.mapM_cons]
    rcases List.mem_cons.mp member with rfl | member
    · apply Fails.bind
      simp only [seen, read]
      apply Fails.bind
      intro state
      obtain ⟨error, after, came⟩ := sourced_severed inv target severed state
      exact ⟨referentError ⟨name, target, false⟩ error, after, by rw [run_adapt, came]; rfl⟩
    · exact fails_after _ fun first => Fails.bind _ (ih member)

/-- Where something confines and a referent is read, there is a kernel on which the endpoint is
entered otherwise than it is meant to be. -/
theorem not_meant_elsewhere [Inhabited ω] (wrappers : List (Wrapper σ)) (object : EndpointObject σ ω)
    (answers : object.forwards = none) (inv : Invocation σ) (once : OneEach inv.request)
    (rooted : inv.scope.isSevered = false)
    (elsewhere : ¬ReadsInPlace wrappers (meaningOf wrappers object inv.request.verb) inv.request) :
    entered (rootOnly : Outside σ ω) wrappers
        (pendingBefore object inv.request (referencesOf wrappers object inv.request.verb)) inv ≠
      meant (rootOnly : Outside σ ω) wrappers (meaningOf wrappers object inv.request.verb) inv := by
  intro same
  rw [ReadsInPlace, not_or] at elsewhere
  obtain ⟨confines, reads⟩ := elsewhere
  have confined : ∃ wrapper ∈ wrappers, wrapper.confines = true := by simpa using confines
  obtain ⟨name, target, member, read⟩ : ∃ name target,
      (name, ArgRef.reference target) ∈ inv.request.args ∧
        meaningOf wrappers object inv.request.verb name = .referent := by
    simpa using reads
  rw [entered_eq rootOnly wrappers object answers inv once] at same
  have fails : Fails (meant (rootOnly : Outside σ ω) wrappers
      (meaningOf wrappers object inv.request.verb) inv) :=
    Fails.bind _ (not_seen_severed _ _ inv.request.args (derived_confined wrappers inv confined)
      name target member read)
  have succeeds : Succeeds (meant (rootOnly : Outside σ ω) wrappers
      (meaningOf wrappers object inv.request.verb)
      inv) := by
    rw [← same]
    exact Succeeds.bind (all_seen_at_root inv (meaningOf wrappers object inv.request.verb)
      inv.request.args rooted) fun args state => ⟨_, _, rfl⟩
  obtain ⟨value, after, came⟩ := succeeds ⟨.empty, [], default⟩
  obtain ⟨error, after', failed⟩ := fails ⟨.empty, [], default⟩
  cases came.symm.trans failed

/-- On every kernel an endpoint is entered as its contract means it exactly where nothing in its
stack confines, or no referent of the request is read. -/
theorem entered_as_meant_iff [Inhabited ω] (wrappers : List (Wrapper σ))
    (object : EndpointObject σ ω) (answers : object.forwards = none) (request : Request)
    (once : OneEach request) :
    (∀ (outside : Outside σ ω) (inv : Invocation σ), inv.request = request →
      entered outside wrappers
          (pendingBefore object request (referencesOf wrappers object request.verb)) inv =
        meant outside wrappers (meaningOf wrappers object request.verb) inv) ↔
    ReadsInPlace wrappers (meaningOf wrappers object request.verb) request := by
  constructor
  · intro same
    by_contra elsewhere
    exact not_meant_elsewhere wrappers object answers
      ⟨request, [], .root, .empty, 0, ⟨none, none, none⟩⟩ once rfl elsewhere (same _ _ rfl)
  · rintro place outside inv rfl
    exact meant_of_in_place outside wrappers object answers inv once place

/-- The names whose referents are read, in their order. -/
def readTargets (pending : List PendingReference) : List Iri :=
  (pending.filter fun reference => !reference.asName).map PendingReference.target

/-- The record once some reads came to what they did. -/
def recordAll (recorded : Recorded)
    (reads : List (Iri × Except Error Representation × Dependencies)) : Recorded :=
  reads.foldl (fun recorded read => recorded.record read.1 read.2.1 read.2.2) recorded

omit [Space σ] in
/-- Collecting a body records nothing. -/
theorem collect_recorded (outside : Outside σ ω) (inv : Invocation σ) (body : Body)
    (state : RunState ω) :
    ((inv.collect outside body).run.run state).2.recorded = state.recorded := by
  cases body <;> rfl

/-- The reads that settling makes, each with what the kernel answered it and handed back beside
an error: one for every reference that is read, in order, up to the first that fails. -/
def readsMade (outside : Outside σ ω) (inv : Invocation σ) :
    List PendingReference → RunState ω → List (Iri × Except Error Representation × Dependencies)
  | [], _ => []
  | pending :: rest, state =>
    if pending.asName then readsMade outside inv rest state
    else
      (pending.target,
          (outside.answer inv (Request.new .source pending.target) state.cells state.rest).1) ::
        match (sourced outside inv pending.target).run.run state with
        | (.ok _, after) => readsMade outside inv rest after
        | (.error _, _) => []

omit [Space σ] in
/-- A read is recorded, whatever became of it. -/
theorem sourced_recorded (outside : Outside σ ω) (inv : Invocation σ) (target : Iri)
    (state : RunState ω) :
    ((sourced outside inv target).run.run state).2.recorded =
      state.recorded.record target
        (outside.answer inv (Request.new .source target) state.cells state.rest).1.1
        (outside.answer inv (Request.new .source target) state.cells state.rest).1.2 := by
  have recorded : ((inv.issueBody outside (Request.new .source target)).run.run state).2.recorded =
      state.recorded.record target
        (outside.answer inv (Request.new .source target) state.cells state.rest).1.1
        (outside.answer inv (Request.new .source target) state.cells state.rest).1.2 :=
    rfl
  rw [← recorded]
  cases issued : (inv.issueBody outside (Request.new .source target)).run.run state with
  | mk result after =>
    cases result with
    | error error => rw [sourced, Effect.run_bind_error issued]
    | ok answer => rw [sourced, Effect.run_bind_ok issued, collect_recorded]

omit [Space σ] in
/-- The record of what settling did is the record of the reads it made, the one it fails with
included; and it makes all of them, unless it fails. -/
theorem settled_recorded (outside : Outside σ ω) (inv : Invocation σ)
    (pending : List PendingReference) (args : List (Text × ArgRef)) (state : RunState ω) :
    ((settledArgs outside inv pending args).run.run state).2.recorded =
        recordAll state.recorded (readsMade outside inv pending state) ∧
      (readsMade outside inv pending state).map Prod.fst <+: readTargets pending ∧
      ∀ settled, ((settledArgs outside inv pending args).run.run state).1 = .ok settled →
        (readsMade outside inv pending state).map Prod.fst = readTargets pending := by
  induction pending generalizing args state with
  | nil => exact ⟨rfl, List.prefix_rfl, fun _ _ => rfl⟩
  | cons reference rest ih =>
    cases asName : reference.asName with
    | true =>
      have step : settledArgs outside inv (reference :: rest) args =
          settledArgs outside inv rest
            (replaced args reference.argument (Text.asBytes reference.target)) := by
        rw [settledArgs, settledValue, if_pos asName, pure_bind]
      have targets : readTargets (reference :: rest) = readTargets rest := by
        rw [readTargets, List.filter_cons_of_neg (by simp [asName])]
        rfl
      have reads : readsMade outside inv (reference :: rest) state =
          readsMade outside inv rest state := by
        rw [readsMade, if_pos asName]
      rw [step, targets, reads]
      exact ih _ _
    | false =>
      have targets : readTargets (reference :: rest) = reference.target :: readTargets rest := by
        rw [readTargets, List.filter_cons_of_pos (by simp [asName])]
        rfl
      have step : settledArgs outside inv (reference :: rest) args =
          ExceptT.adapt (referentError reference) (sourced outside inv reference.target) >>=
            fun value => settledArgs outside inv rest (replaced args reference.argument value) := by
        rw [settledArgs, settledValue, if_neg (by simp [asName])]
      have recorded := sourced_recorded outside inv reference.target state
      rw [step, targets]
      rw [readsMade, if_neg (by simp [asName])]
      cases read : (sourced outside inv reference.target).run.run state with
      | mk result after =>
        have adapted := run_adapt (referentError reference)
          (sourced outside inv reference.target) state
        rw [read] at adapted recorded
        dsimp only at recorded
        cases result with
        | error error =>
          refine ⟨?_, ?_, ?_⟩
          · rw [Effect.run_bind_error adapted]
            exact recorded
          · exact (List.prefix_cons_inj _).mpr (List.nil_prefix)
          · intro settled same
            rw [Effect.run_bind_error adapted] at same
            cases same
        | ok value =>
          obtain ⟨all, part, every⟩ := ih (replaced args reference.argument value) after
          refine ⟨?_, ?_, ?_⟩
          · rw [Effect.run_bind_ok adapted, all, recorded]
            rfl
          · exact (List.prefix_cons_inj _).mpr part
          · intro settled same
            rw [Effect.run_bind_ok adapted] at same
            exact congrArg (reference.target :: ·) (every settled same)

omit [Blake3] in
/-- A record of reads runs out with each of them and hangs from all that each hung from. -/
theorem record_all_keeps (reads : List (Iri × Except Error Representation × Dependencies))
    (recorded : Recorded) :
    Recorded.Within recorded (recordAll recorded reads) ∧
      ∀ read ∈ reads, (recordAll recorded reads).expiry ≤ (hear read.1 read.2.1 read.2.2).expiry ∧
        ∀ thread ∈ (hear read.1 read.2.1 read.2.2).threads,
          thread ∈ (recordAll recorded reads).threads := by
  induction reads generalizing recorded with
  | nil => exact ⟨Recorded.Within.refl recorded, List.forall_mem_nil _⟩
  | cons first rest ih =>
    obtain ⟨grown, sooner, hangs⟩ := recorded.note_keeps (hear first.1 first.2.1 first.2.2)
    obtain ⟨within, each⟩ := ih (recorded.note (hear first.1 first.2.1 first.2.2))
    rw [recordAll, List.foldl_cons, Recorded.record_eq]
    refine ⟨grown.trans within, List.forall_mem_cons.mpr ⟨⟨within.expiry.trans sooner, ?_⟩, each⟩⟩
    exact fun thread member => within.threads thread (hangs thread member)

/-- An endpoint in its stack, and the view it is, if it is one. -/
structure Stage (σ ω : Type) [Blake3] [Space σ] where
  wrappers : List (Wrapper σ)
  object : EndpointObject σ ω
  view : Option ViewEndpoint
  agrees : object.forwards = view.map ViewEndpoint.forward

/-- How the kernel enters a stage. -/
def Stage.entered (outside : Outside σ ω) (stage : Stage σ ω) (inv : Invocation σ) :
    Effect ω (Invocation σ) :=
  EndpointObject.entered outside stage.wrappers
    (pendingBefore stage.object inv.request
      (referencesOf stage.wrappers stage.object inv.request.verb)) inv

/-- How a stage is meant to be entered: a view with the request as it is, any other endpoint as its
contract means the arguments. -/
def Stage.meant (outside : Outside σ ω) (stage : Stage σ ω) (inv : Invocation σ) :
    Effect ω (Invocation σ) :=
  if stage.view.isSome then
    Wrapper.behind stage.wrappers (pure (Wrapper.derived stage.wrappers inv))
  else
    EndpointObject.meant outside stage.wrappers
      (meaningOf stage.wrappers stage.object inv.request.verb) inv

/-- What the endpoint a request ends at is entered with, however many views it goes through: each
view forwards what it was entered with, and what the kernel makes of that is the next stage. -/
def endsIn (arrive : Invocation σ → Request → Effect ω (Stage σ ω × Invocation σ))
    (enter : Stage σ ω → Invocation σ → Effect ω (Invocation σ)) :
    Nat → Stage σ ω → Invocation σ → Effect ω (Invocation σ)
  | 0, _, inv => throw (.depthExceeded inv.depth inv.request.target)
  | fuel + 1, stage, inv => do
    let own ← enter stage inv
    match stage.view with
    | none => pure own
    | some view => do
      let next ← liftExcept (view.forwarded own.request)
      let (further, arrived) ← arrive own next
      endsIn arrive enter fuel further arrived
where
  /-- A refusal ends the call. -/
  liftExcept : Except Error Request → Effect ω Request
    | .ok request => pure request
    | .error error => throw error

/-- A stage where nothing is read elsewhere: a view, or an endpoint that reads in its place. -/
def Stage.InPlace (stage : Stage σ ω) (inv : Invocation σ) : Prop :=
  stage.view = none → OneEach inv.request ∧
    ReadsInPlace stage.wrappers (meaningOf stage.wrappers stage.object inv.request.verb) inv.request

/-- A view is entered with the request as it is, nothing read. -/
theorem Stage.entered_view (outside : Outside σ ω) (stage : Stage σ ω) (inv : Invocation σ)
    (view : stage.view.isSome = true) :
    stage.entered outside inv =
      Wrapper.behind stage.wrappers (pure (Wrapper.derived stage.wrappers inv)) := by
  have forwards : stage.object.forwards.isSome = true := by
    rw [stage.agrees, Option.isSome_map, view]
  rw [entered, pendingBefore, if_pos forwards, entered_nothing]

/-- A stage that is entered in its place does what it means. -/
theorem Stage.entered_meant (outside : Outside σ ω) (stage : Stage σ ω) (inv : Invocation σ)
    (place : stage.InPlace inv) : stage.entered outside inv = stage.meant outside inv := by
  unfold Stage.meant
  split
  · rename_i view
    exact stage.entered_view outside inv view
  · rename_i door
    have none : stage.view = none := by simpa using door
    have answers : stage.object.forwards = Option.none := by rw [stage.agrees, none]; rfl
    exact meant_of_in_place outside stage.wrappers stage.object answers inv (place none).1
      (place none).2

/-- However many views a request goes through, the endpoint it ends at is entered as its own
contract means the arguments, when every stage reads in its place. -/
theorem ends_as_meant (outside : Outside σ ω)
    (arrive : Invocation σ → Request → Effect ω (Stage σ ω × Invocation σ))
    (arrives : ∀ own next state found after,
      (arrive own next).run.run state = (.ok found, after) → found.1.InPlace found.2)
    (fuel : Nat) (stage : Stage σ ω) (inv : Invocation σ) (place : stage.InPlace inv) :
    endsIn arrive (Stage.entered outside) fuel stage inv =
      endsIn arrive (Stage.meant outside) fuel stage inv := by
  induction fuel generalizing stage inv with
  | zero => rfl
  | succ fuel ih =>
    rw [endsIn, endsIn, stage.entered_meant outside inv place]
    congr 1
    funext own
    cases stage.view with
    | none => rfl
    | some view =>
      dsimp only
      congr 1
      funext next
      apply Effect.ext
      intro state
      cases came : (arrive own next).run.run state with
      | mk result after =>
        cases result with
        | error error => rw [Effect.run_bind_error came, Effect.run_bind_error came]
        | ok found =>
          rw [Effect.run_bind_ok came, Effect.run_bind_ok came]
          obtain ⟨further, arrived⟩ := found
          rw [ih further arrived (arrives own next state _ after came)]

/-- Every read that settling makes is a dependency of what the endpoint answers: the record is that
of what the kernel answered each read, a failed one included, so that it runs out with each and
hangs from all that each hung from; and every reference that is to be read was, unless one failed. -/
structure ReadsRecorded (outside : Outside σ ω) (inv : Invocation σ)
    (pending : List PendingReference) (args : List (Text × ArgRef)) (state : RunState ω) : Prop where
  record : ((settledArgs outside inv pending args).run.run state).2.recorded =
    recordAll state.recorded (readsMade outside inv pending state)
  depends : ∀ read ∈ readsMade outside inv pending state,
    ((settledArgs outside inv pending args).run.run state).2.recorded.expiry ≤
        (hear read.1 read.2.1 read.2.2).expiry ∧
      ∀ thread ∈ (hear read.1 read.2.1 read.2.2).threads,
        thread ∈ ((settledArgs outside inv pending args).run.run state).2.recorded.threads
  upTo : (readsMade outside inv pending state).map Prod.fst <+: readTargets pending
  every : ∀ settled, ((settledArgs outside inv pending args).run.run state).1 = .ok settled →
    (readsMade outside inv pending state).map Prod.fst = readTargets pending

/-- A reference means its referent: the kernel enters the endpoint past its stack and hands on what
the stack answers, on every kernel each argument is then what the contract means by it, each
referent what the endpoint itself would get or else the failure of that read, and every read is
recorded. -/
structure MeansReferents (wrappers : List (Wrapper σ)) (object : EndpointObject σ ω)
    (request : Request) : Prop where
  enters : ∀ (outside : Outside σ ω) (inv : Invocation σ) (offer : Option OfferedAnswer),
    inv.request = request →
      (settleReferences outside (Wrapper.wrapAll wrappers object) request
          (referencesOf wrappers object request.verb) offer).invokeBody inv =
        entered outside wrappers
          (pendingBefore object request (referencesOf wrappers object request.verb)) inv >>=
            fun own => bodyFace wrappers object own >>= finished offer
  «meant» : ∀ (outside : Outside σ ω) (inv : Invocation σ), inv.request = request →
    entered outside wrappers
        (pendingBefore object request (referencesOf wrappers object request.verb)) inv =
      EndpointObject.meant outside wrappers (meaningOf wrappers object request.verb) inv
  recorded : ∀ (outside : Outside σ ω) (inv : Invocation σ) (state : RunState ω),
    ReadsRecorded outside inv
      (pendingBefore object request (referencesOf wrappers object request.verb)) request.args state

/-- A reference to an endpoint in a stack means its referent exactly where nothing in the stack
confines, or no referent of the request is read; and however many views a request goes through,
none of them settles anything, and the endpoint it ends at is entered as its own contract means
the arguments, when it reads in its place. -/
theorem references_mean_referents_iff [Inhabited ω] (wrappers : List (Wrapper σ))
    (object : EndpointObject σ ω) (answers : object.forwards = none) (request : Request)
    (once : OneEach request) :
    (MeansReferents wrappers object request ↔
      ReadsInPlace wrappers (meaningOf wrappers object request.verb) request) ∧
    ∀ (outside : Outside σ ω)
      (arrive : Invocation σ → Request → Effect ω (Stage σ ω × Invocation σ)),
      (∀ own next state found after,
        (arrive own next).run.run state = (.ok found, after) → found.1.InPlace found.2) →
      ∀ (fuel : Nat) (stage : Stage σ ω) (inv : Invocation σ), stage.InPlace inv →
        endsIn arrive (Stage.entered outside) fuel stage inv =
          endsIn arrive (Stage.meant outside) fuel stage inv := by
  refine ⟨⟨fun means => ?_, fun place => ⟨?_, ?_, ?_⟩⟩, ends_as_meant⟩
  · exact (entered_as_meant_iff wrappers object answers request once).mp means.«meant»
  · rintro outside inv offer rfl
    exact invoked_through outside wrappers object inv _ offer
  · exact (entered_as_meant_iff wrappers object answers request once).mpr place
  · intro outside inv state
    obtain ⟨record, upTo, every⟩ := settled_recorded outside inv
      (pendingBefore object request (referencesOf wrappers object request.verb)) request.args state
    exact ⟨record, record ▸ (record_all_keeps _ _).2, upTo, every⟩

end Entering

end EndpointObject

namespace ReferenceConfined

local instance anyDigest : Blake3 := ⟨fun bytes => bytes.length.toUInt64⟩

/-- A space that answers no name and claims none. -/
inductive Closed where
  | closed

local instance closedSpace : Space Closed where
  resolve := fun _ _ _ => .miss
  id := fun _ => none
  topology := fun _ => .node none .other [] none

def given : ArgSpec := { name := "in".toList }

/-- An endpoint that takes one input by value and answers with nothing. -/
def extract : EndpointObject Closed Unit where
  name := "extract".toList
  describe := { id := "extract".toList, verbs := [.source], inputs := [given] }
  forwards := none
  confinement := none
  isLimiter := false
  invoke := fun _ => pure ⟨EndpointObject.nothingSaid, rfl⟩
  invokeBody := fun _ => pure EndpointObject.nothingSaid

def asked : Request :=
  ⟨.source, "urn:extract".toList, [("in".toList, .reference "urn:data:secret".toList)]⟩

/-- Behind a thread a reference means its referent. -/
theorem threaded_reference :
    EndpointObject.MeansReferents [.threaded "urn:thread".toList] extract asked :=
  (EndpointObject.references_mean_referents_iff [.threaded "urn:thread".toList] extract rfl asked
    (List.nodup_singleton _)).1.mpr (.inl (by simp [Wrapper.confines]))

/-- A reference given to what is confined to a closed space is read at the root all the same. -/
theorem confined_reference_read :
    ¬ ∀ (wrappers : List (Wrapper Closed)) (object : EndpointObject Closed Unit)
      (request : Request), object.forwards = none → EndpointObject.OneEach request →
        EndpointObject.MeansReferents wrappers object request := by
  intro always
  have means := always [.confine "urn:context".toList .closed rfl] extract asked rfl
    (List.nodup_singleton _)
  refine EndpointObject.not_meant_elsewhere [.confine "urn:context".toList .closed rfl] extract rfl
    ⟨asked, [], .root, .empty, 0, ⟨none, none, none⟩⟩ (List.nodup_singleton _) rfl ?_
    (means.«meant» _ _ rfl)
  rintro (open_ | unread)
  · cases open_ _ List.mem_cons_self
  · exact unread "in".toList "urn:data:secret".toList List.mem_cons_self (by decide)

end ReferenceConfined

end Ikigai
