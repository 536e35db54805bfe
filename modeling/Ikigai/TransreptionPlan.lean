import Ikigai.Selection

/-!
# Plans of transreption

A representation is turned into another type by one transreptor that reads the one and writes the
other, or by two that meet at the canonical type. A plan through edges that are declared lossless
comes first, whatever was consented to. Types are compared as media types: a declared type
agrees with what it is given when no parameter both state differs.
-/

namespace Ikigai

/-- The type the two hops of a pivot meet at. -/
def canonicalType : Text := "text/turtle".toList

/-- One step of a plan: the endpoint, the type it is asked for, and what it declares. -/
structure TransreptionStep where
  endpoint : Text
  asks : Text
  lossless : Bool
  incremental : Bool
deriving DecidableEq, Repr

def isLosslessPlan (plan : List TransreptionStep) : Bool := plan.all TransreptionStep.lossless

structure TransreptionPolicy where
  losslessOnly : Bool := true
deriving DecidableEq, Repr

def TransreptionPolicy.allowsLossy (policy : TransreptionPolicy) : Bool := !policy.losslessOnly

/-- A transreptor's declared conversions, and its name. -/
structure TransreptionCandidate where
  iri : Text
  reads : List Text
  writes : List Text
  lossless : Bool
  incremental : Bool
deriving DecidableEq, Repr

namespace TransreptionCandidate

def handles (candidate : TransreptionCandidate) (source target : Text) : Bool :=
  (candidate.reads.any fun declared => MediaType.agree declared source) &&
    candidate.writes.any fun declared => MediaType.agree declared target

def step (candidate : TransreptionCandidate) (target : Text) : TransreptionStep :=
  ⟨candidate.iri, target, candidate.lossless, candidate.incremental⟩

end TransreptionCandidate

/-- Whether an input can be filled by driving the endpoint with content and a target alone. -/
def isAuto (name : Text) : Bool := name = "content".toList || name = "as".toList

/-- Whether a transreptor can be driven with content and a target alone. -/
def isAutoInvocable (description : Description) : Bool :=
  let spec := (description.actionSpecs.find? fun action => action.verb = .source).getD
    (description.flatAction .source)
  ((spec.inputs.filter ArgSpec.required).all fun input => isAuto input.name) &&
    (spec.groups.filter InputGroup.isRequired).all fun group => group.members.any isAuto

/-- The transreptors among a space's entries that are bound to a name of their own. -/
def transreptionCandidates [IriSyntax] (entries : List SpaceEntry) (probe : Iri → Option Probed) :
    List TransreptionCandidate :=
  entries.filterMap fun entry =>
    ((Iri.parse entry.pattern).bind probe).bind fun probed =>
      match probed.description.kind with
      | .endpoint => none
      | .transreptor transreption =>
        if isAutoInvocable probed.description then
          some ⟨entry.pattern, transreption.reads, transreption.writes, transreption.lossless,
            transreption.incremental⟩
        else none

/-- The first of the candidates, or of the lossless ones, that turns the one type into the other. -/
def firstHandling (candidates : List TransreptionCandidate) (losslessOnly : Bool)
    (source target : Text) : Option TransreptionCandidate :=
  (candidates.filter fun candidate => !losslessOnly || candidate.lossless).find? fun candidate =>
    candidate.handles source target

/-- One pass: a direct hop, else two that meet at the canonical type. -/
def planAmong (candidates : List TransreptionCandidate) (source target : Text)
    (losslessOnly : Bool) : Option (List TransreptionStep) :=
  match firstHandling candidates losslessOnly source target with
  | some direct => some [direct.step target]
  | none =>
    if !MediaType.agree source canonicalType && !MediaType.agree target canonicalType then
      (firstHandling candidates losslessOnly source canonicalType).bind fun first =>
        (firstHandling candidates losslessOnly canonicalType target).map fun second =>
          [first.step canonicalType, second.step target]
    else none

/-- `select_transreptor_with`, over the candidates of a root. -/
def selectTransreptorWith (candidates : List TransreptionCandidate) (source target : Text)
    (policy : TransreptionPolicy) : Option (List TransreptionStep) :=
  if MediaType.agree source target then none
  else
    match planAmong candidates source target true with
    | some plan => some plan
    | none => if policy.allowsLossy then planAmong candidates source target false else none

/-- A step that a candidate takes: it declares a type that agrees with what it is given and one that
agrees with what it is asked for. -/
structure TakesStep (candidates : List TransreptionCandidate) (given : Text)
    (step : TransreptionStep) : Prop where
  taken : ∃ candidate ∈ candidates, candidate.step step.asks = step ∧
    (∃ declared ∈ candidate.reads, MediaType.agree declared given = true) ∧
    ∃ declared ∈ candidate.writes, MediaType.agree declared step.asks = true

/-- Each step reads what the one before was asked to write, and the last is asked for the target. -/
inductive Composable (candidates : List TransreptionCandidate) (target : Text) :
    Text → List TransreptionStep → Prop where
  | last {given : Text} {step : TransreptionStep} (takes : TakesStep candidates given step)
      (asked : step.asks = target) : Composable candidates target given [step]
  | next {given : Text} {step : TransreptionStep} {rest : List TransreptionStep}
      (takes : TakesStep candidates given step)
      (further : Composable candidates target step.asks rest) :
      Composable candidates target given (step :: rest)

/-- The star of the candidates a policy lets through: a direct hop, or a pivot between two types
that are not the canonical one. -/
inductive Star (candidates : List TransreptionCandidate) (lossless : Bool) (source target : Text) :
    Prop where
  | direct (candidate : TransreptionCandidate) (listed : candidate ∈ candidates)
      (eligible : lossless = true → candidate.lossless = true)
      (handles : candidate.handles source target = true)
  | pivot (first second : TransreptionCandidate) (listed : first ∈ candidates)
      (listed' : second ∈ candidates)
      (eligible : lossless = true → first.lossless = true ∧ second.lossless = true)
      (source_apart : MediaType.agree source canonicalType = false)
      (target_apart : MediaType.agree target canonicalType = false)
      (reads : first.handles source canonicalType = true)
      (writes : second.handles canonicalType target = true)

theorem takes_of_handles {candidates : List TransreptionCandidate}
    {candidate : TransreptionCandidate} {source target : Text} (listed : candidate ∈ candidates)
    (handles : candidate.handles source target = true) :
    TakesStep candidates source (candidate.step target) := by
  rw [TransreptionCandidate.handles, Bool.and_eq_true, List.any_eq_true, List.any_eq_true] at handles
  obtain ⟨reads, writes⟩ := handles
  exact ⟨candidate, listed, rfl, reads, writes⟩

/-- An eligible candidate that is found is listed and handles the types. -/
theorem found_eligible {candidates : List TransreptionCandidate} {losslessOnly : Bool}
    {source target : Text} {candidate : TransreptionCandidate}
    (found : firstHandling candidates losslessOnly source target = some candidate) :
    candidate ∈ candidates ∧ (losslessOnly = true → candidate.lossless = true) ∧
      candidate.handles source target = true := by
  obtain ⟨listed, eligible⟩ := List.mem_filter.mp (List.mem_of_find?_eq_some found)
  have handles : candidate.handles source target = true := by
    simpa using List.find?_some found
  refine ⟨listed, fun only => ?_, handles⟩
  rwa [only, Bool.not_true, Bool.false_or] at eligible

theorem some_found {candidates : List TransreptionCandidate} {losslessOnly : Bool}
    {source target : Text} {candidate : TransreptionCandidate} (listed : candidate ∈ candidates)
    (eligible : losslessOnly = true → candidate.lossless = true)
    (handles : candidate.handles source target = true) :
    (firstHandling candidates losslessOnly source target).isSome = true := by
  rw [firstHandling, List.find?_isSome]
  refine ⟨candidate, List.mem_filter.mpr ⟨listed, ?_⟩, handles⟩
  cases losslessOnly with
  | false => rfl
  | true => exact eligible rfl

/-- What one pass finds: a chain of one or two steps, lossless where only that was let through. -/
theorem planned {candidates : List TransreptionCandidate} {source target : Text}
    {losslessOnly : Bool} {plan : List TransreptionStep}
    (found : planAmong candidates source target losslessOnly = some plan) :
    Composable candidates target source plan ∧ (losslessOnly = true → isLosslessPlan plan = true) ∧
      Star candidates losslessOnly source target := by
  unfold planAmong at found
  split at found
  · rename_i direct hit
    obtain ⟨listed, eligible, handles⟩ := found_eligible hit
    cases found
    refine ⟨.last (takes_of_handles listed handles) rfl, fun only => ?_,
      .direct direct listed eligible handles⟩
    simp [isLosslessPlan, TransreptionCandidate.step, eligible only]
  · split at found
    · rename_i apart
      rw [Bool.and_eq_true, Bool.not_eq_true', Bool.not_eq_true'] at apart
      obtain ⟨first, hit, rest⟩ := Option.bind_eq_some_iff.mp found
      obtain ⟨second, hit', rfl⟩ := Option.map_eq_some_iff.mp rest
      obtain ⟨listed, eligible, handles⟩ := found_eligible hit
      obtain ⟨listed', eligible', handles'⟩ := found_eligible hit'
      refine ⟨.next (takes_of_handles listed handles) (.last (takes_of_handles listed' handles') rfl),
        fun only => ?_, .pivot first second listed listed'
          (fun only => ⟨eligible only, eligible' only⟩) apart.1 apart.2 handles handles'⟩
      simp [isLosslessPlan, TransreptionCandidate.step, eligible only, eligible' only]
    · cases found

/-- One pass finds a plan wherever the star of what it lets through has one. -/
theorem plan_of_star {candidates : List TransreptionCandidate} {source target : Text}
    {losslessOnly : Bool} (star : Star candidates losslessOnly source target) :
    (planAmong candidates source target losslessOnly).isSome = true := by
  unfold planAmong
  split
  · rfl
  · rename_i missed
    cases star with
    | direct candidate listed eligible handles =>
      have found := some_found listed eligible handles
      rw [missed] at found
      cases found
    | pivot first second listed listed' eligible source_apart target_apart reads writes =>
      obtain ⟨start, hit⟩ := Option.isSome_iff_exists.mp
        (some_found listed (fun only => (eligible only).1) reads)
      obtain ⟨finish, hit'⟩ := Option.isSome_iff_exists.mp
        (some_found listed' (fun only => (eligible only).2) writes)
      rw [if_pos (by rw [source_apart, target_apart]; rfl), hit, hit']
      rfl

/-- What lets lossless edges through only is let through by every policy. -/
theorem Star.of_lossless {candidates : List TransreptionCandidate} {source target : Text}
    (star : Star candidates true source target) (lossless : Bool) :
    Star candidates lossless source target := by
  cases star with
  | direct candidate listed eligible handles =>
    exact .direct candidate listed (fun _ => eligible rfl) handles
  | pivot first second listed listed' eligible source_apart target_apart reads writes =>
    exact .pivot first second listed listed' (fun _ => eligible rfl) source_apart target_apart reads
      writes

/-- Between types that are not one: there is a plan exactly when the policy's star has one; it is
lossless where a lossless one exists and wherever the policy asks for that; and every plan is a
chain of declared conversions from the one type to the other. -/
theorem select_transreptor_sound_complete (candidates : List TransreptionCandidate)
    (source target : Text) (policy : TransreptionPolicy)
    (apart : MediaType.agree source target = false) :
    ((selectTransreptorWith candidates source target policy).isSome = true ↔
        Star candidates policy.losslessOnly source target) ∧
      (Star candidates true source target → ∃ plan,
        selectTransreptorWith candidates source target policy = some plan ∧
          isLosslessPlan plan = true) ∧
      ∀ plan, selectTransreptorWith candidates source target policy = some plan →
        Composable candidates target source plan ∧
          (isLosslessPlan plan = false → policy.allowsLossy = true) := by
  have chosen : selectTransreptorWith candidates source target policy =
      match planAmong candidates source target true with
      | some plan => some plan
      | none => if policy.allowsLossy then planAmong candidates source target false else none := by
    rw [selectTransreptorWith, apart]
    rfl
  cases lossless : planAmong candidates source target true with
  | some plan =>
    rw [lossless] at chosen
    obtain ⟨composable, all, star⟩ := planned lossless
    rw [chosen]
    refine ⟨⟨fun _ => star.of_lossless _, fun _ => rfl⟩, fun _ => ⟨plan, rfl, all rfl⟩, ?_⟩
    rintro _ ⟨⟩
    refine ⟨composable, fun lossy => ?_⟩
    rw [all rfl] at lossy
    cases lossy
  | none =>
    rw [lossless] at chosen
    have none_lossless : ¬Star candidates true source target := by
      intro star
      have found := plan_of_star star
      rw [lossless] at found
      cases found
    rw [chosen]
    cases policy with
    | mk losslessOnly =>
      cases losslessOnly with
      | true =>
        exact ⟨⟨nofun, fun star => absurd star none_lossless⟩,
          fun star => absurd star none_lossless, nofun⟩
      | false =>
        refine ⟨⟨fun some => ?_, plan_of_star⟩, fun star => absurd star none_lossless,
          fun plan found => ⟨(planned found).1, fun _ => rfl⟩⟩
        obtain ⟨plan, found⟩ := Option.isSome_iff_exists.mp some
        exact (planned found).2.2

namespace PivotExample

def csv : Text := "text/csv".toList

def json : Text := "application/json".toList

def reader : TransreptionCandidate := ⟨"urn:csv:turtle".toList, [csv], [canonicalType], true, false⟩

def writer : TransreptionCandidate := ⟨"urn:turtle:json".toList, [canonicalType], [json], true, false⟩

/-- What reads one type and what writes the other meet at the canonical one. -/
theorem csv_to_json_planned :
    ∃ plan, selectTransreptorWith [writer, reader] csv json {} = some plan ∧
      isLosslessPlan plan = true :=
  (select_transreptor_sound_complete [writer, reader] csv json {} (by decide)).2.1
    (.pivot reader writer (by decide) (by decide) (fun _ => ⟨rfl, rfl⟩) (by decide) (by decide)
      (by decide) (by decide))

end PivotExample

end Ikigai
