import Ikigai.AliasChains

/-!
# Confluence along a chain

Where a table rewrites a name through others, each of them stands for the same name when
it is asked for itself. The one thing in the way is the kernel's namespace: the name a
walk starts from is checked to be outside it, the names it goes through are not.
-/

namespace Ikigai

namespace AliasTable

variable [IriSyntax]

/-- What a rewrite says of the names on its chain: the last stands, each before it is
rewritten to the last, and none before it is the kernel's. -/
structure ConfluentAt (table : AliasTable) (target : Iri) : Prop where
  last : ∀ hop names, table.canonicalize target = .aliased hop →
    table.Follows target names hop.rules hop.canonical →
      table.canonicalize hop.canonical = .direct
  onward : ∀ hop names, table.canonicalize target = .aliased hop →
    table.Follows target names hop.rules hop.canonical → ∀ name ∈ names.dropLast,
      ∃ rules, table.canonicalize name = .aliased ⟨name, hop.canonical, rules⟩
  reserved : ∀ hop names, table.canonicalize target = .aliased hop →
    table.Follows target names hop.rules hop.canonical → ∀ name ∈ names.dropLast,
      kernelOp name = none

/-- The first of a table's rules that matches a name rewrites it. -/
def Rewrites (table : AliasTable) (name next : Text) : Prop :=
  ∃ before rule after, table.rules = before ++ rule :: after ∧ rule.apply name = some next ∧
    ∀ earlier ∈ before, earlier.apply name = none

/-- The rules lead from a name through others to a last one, a rewrite at a time. -/
inductive Leads (table : AliasTable) : Iri → List Iri → Iri → Prop where
  | here (name : Iri) : Leads table name [] name
  | on (name next last : Iri) (names : List Iri) (rewritten : table.Rewrites name next)
      (further : Leads table next names last) : Leads table name (next :: names) last

/-- The rules make no detour through the kernel's namespace for a target: there is no name of
the kernel's that they lead to from a target which is none, and from which a rule leads on to a
name that no rule matches, by fewer rewrites in all than the budget of hops, through names that
are all IRIs and all different. -/
def NoDetour (table : AliasTable) (target : Iri) : Prop :=
  ¬∃ ahead reserved behind last, kernelOp target = none ∧ table.Leads target ahead reserved ∧
    (kernelOp reserved).isSome = true ∧ table.Leads reserved behind last ∧ behind ≠ [] ∧
    (∀ rule ∈ table.rules, rule.apply last = none) ∧
    ahead.length + behind.length < table.maxHops ∧
    (∀ name ∈ ahead ++ behind, (Iri.parse name).isSome = true) ∧
    (target :: (ahead ++ behind)).Nodup

variable {table : AliasTable} {target : Iri}

/-- A chain can be taken up at any of its names. -/
theorem Follows.from_name {names : List Iri} {rules : List Nat} {last : Iri}
    (chain : table.Follows target names rules last) (before after : List Iri) (name : Iri)
    (placed : names = before ++ name :: after) :
    ∃ earlier later, rules = earlier ++ later ∧ later.length = after.length ∧
      table.Follows name (name :: after) later last := by
  induction chain generalizing after with
  | nil =>
    have single : before = [] ∧ name :: after = [target] := by
      cases before with
      | nil => exact ⟨rfl, placed.symm⟩
      | cons first before =>
        have counted := congrArg List.length placed
        simp at counted
    obtain ⟨_, same⟩ := single
    cases same
    exact ⟨[], [], rfl, rfl, .nil⟩
  | step names rules last next index chain applied ih =>
    rcases List.eq_nil_or_concat after with ended | ⟨further, final, whole⟩
    · subst ended
      obtain ⟨_, same⟩ := List.append_inj' placed rfl
      cases same
      exact ⟨rules ++ [index], [], (List.append_nil _).symm, rfl, .nil⟩
    · rw [List.concat_eq_append] at whole
      subst whole
      have regrouped : names ++ [next] = (before ++ name :: further) ++ [final] := by
        rw [placed, List.append_assoc, List.cons_append]
      obtain ⟨front, same⟩ := List.append_inj' regrouped rfl
      cases same
      obtain ⟨earlier, later, split, counted, onward⟩ := ih further front
      refine ⟨earlier, later ++ [index], by rw [split, List.append_assoc], ?_,
        .step (name :: further) later last next index onward applied⟩
      rw [List.length_append, List.length_append, counted]
      rfl

/-- What is left of a sane chain is sane. -/
theorem Sane.from_name {before after : List Iri} {name : Iri}
    (sane : Sane (before ++ name :: after)) : Sane (name :: after) := by
  refine ⟨?_, (List.nodup_append.mp sane.distinct).2.1⟩
  intro other member
  apply sane.valid
  cases before with
  | nil => exact member
  | cons first before => exact List.mem_append_right _ (List.mem_cons_of_mem _ member)

/-- A rewrite followed a chain that ended within the budget. -/
theorem aliased_from (hops : Nat) {names : List Iri} {rules : List Nat} {last : Iri}
    (chain : table.Follows target names rules last) (sane : Sane names)
    (budget : rules.length + hops = table.maxHops) (hop : AliasHop)
    (aliased : table.walkFrom target hops last names rules = .aliased hop) :
    ∃ names, table.Follows target names hop.rules hop.canonical ∧
      table.step hop.canonical = none ∧ hop.rules.length < table.maxHops ∧ Sane names ∧
        hop.rules ≠ [] := by
  induction hops generalizing names rules last with
  | zero => cases aliased
  | succ hops ih =>
    cases applied : table.step last with
    | none =>
      simp only [walkFrom, applied] at aliased
      split at aliased
      · cases aliased
      · rename_i some
        cases aliased
        have within : rules.length < table.maxHops := by omega
        refine ⟨names, chain, applied, within, sane, ?_⟩
        simpa using some
    | some pair =>
      obtain ⟨index, next⟩ := pair
      simp only [walkFrom, applied] at aliased
      split at aliased
      · cases aliased
      · rename_i found parsed
        obtain rfl := parse_eq_self parsed
        split at aliased
        · cases aliased
        · rename_i fresh
          have longer := Follows.step names rules last found index chain applied
          refine ih longer (sane.append (by rw [parsed]; rfl) fresh) ?_ aliased
          rw [List.length_append, List.length_singleton]
          omega

theorem aliased_chain (hop : AliasHop) (aliased : table.canonicalize target = .aliased hop) :
    kernelOp target = none ∧ ∃ names, table.Follows target names hop.rules hop.canonical ∧
      table.step hop.canonical = none ∧ hop.rules.length < table.maxHops ∧ Sane names ∧
        hop.rules ≠ [] := by
  have free : kernelOp target = none := by
    unfold canonicalize at aliased
    split at aliased
    · cases aliased
    · exact Option.not_isSome_iff_eq_none.mp ‹_›
  rw [canonicalize_free free] at aliased
  exact ⟨free, aliased_from table.maxHops .nil sane_start (by simp) hop aliased⟩

/-- Two chains of one length from one name are the same. -/
theorem Follows.same_names {names names' : List Iri} {rules rules' : List Nat} {last last' : Iri}
    (chain : table.Follows target names rules last)
    (other : table.Follows target names' rules' last') (counted : rules.length = rules'.length) :
    names = names' ∧ last = last' := by
  induction chain generalizing names' rules' last' with
  | nil =>
    cases other with
    | nil => exact ⟨rfl, rfl⟩
    | step names rules last next index _ _ => simp at counted
  | step names rules last next index chain applied ih =>
    cases other with
    | nil => simp at counted
    | step names' rules' last'' next' index' chain' applied' =>
      simp only [List.length_append, List.length_singleton] at counted
      obtain ⟨sameNames, sameLast⟩ := ih chain' (by omega)
      subst sameNames sameLast
      rw [applied] at applied'
      cases applied'
      exact ⟨rfl, rfl⟩

/-- A name that no rule matches stands, and so does one of the kernel's. -/
theorem direct_of_ended (name : Iri) (ended : table.step name = none) :
    table.canonicalize name = .direct := by
  cases free : kernelOp name with
  | some op => simp [canonicalize, free]
  | none => exact (direct_iff free).mpr ended

/-- The step of a walk takes the first rule that matches. -/
theorem step_next (table : AliasTable) (name : Text) :
    (table.step name).map Prod.snd = table.rules.findSome? fun rule => rule.apply name := by
  have from_ : ∀ (rules : List AliasRule) (start : Nat),
      ((rules.zipIdx start).findSome? fun placed =>
        (placed.1.apply name).map fun next => (placed.2, next)).map Prod.snd =
          rules.findSome? fun rule => rule.apply name := by
    intro rules
    induction rules with
    | nil => exact fun _ => rfl
    | cons rule rest ih =>
      intro start
      rw [List.zipIdx_cons, List.findSome?_cons, List.findSome?_cons]
      cases rule.apply name with
      | none =>
        simp only [Option.map_none]
        exact ih (start + 1)
      | some next => simp only [Option.map_some]
  exact from_ table.rules 0

/-- A name is rewritten exactly where the walk takes a step. -/
theorem rewrites_iff (table : AliasTable) (name next : Text) :
    table.Rewrites name next ↔ ∃ index, table.step name = some (index, next) := by
  have first : table.Rewrites name next ↔ (table.step name).map Prod.snd = some next := by
    rw [step_next, List.findSome?_eq_some_iff]
    rfl
  rw [first, Option.map_eq_some_iff]
  constructor
  · rintro ⟨⟨index, other⟩, stepped, rfl⟩
    exact ⟨index, stepped⟩
  · rintro ⟨index, stepped⟩
    exact ⟨(index, next), stepped, rfl⟩

/-- No rule matches a name exactly where the walk stops. -/
theorem unmatched_iff (table : AliasTable) (name : Text) :
    (∀ rule ∈ table.rules, rule.apply name = none) ↔ table.step name = none := by
  have stopped : table.step name = none ↔ (table.step name).map Prod.snd = none := by simp
  rw [stopped, step_next, List.findSome?_eq_none_iff]

/-- Where the rules lead, a chain goes on with as many rules. -/
theorem Leads.follows {name last : Iri} {names : List Iri} (leads : table.Leads name names last)
    {before : List Iri} {rules : List Nat} (chain : table.Follows target before rules name) :
    ∃ more, more.length = names.length ∧
      table.Follows target (before ++ names) (rules ++ more) last := by
  induction leads generalizing before rules with
  | here name => exact ⟨[], rfl, by simpa using chain⟩
  | on name next last names rewritten _ ih =>
    obtain ⟨index, stepped⟩ := (rewrites_iff table name next).mp rewritten
    obtain ⟨more, counted, further⟩ := ih (.step before rules name next index chain stepped)
    refine ⟨index :: more, congrArg (· + 1) counted, ?_⟩
    simpa using further

/-- One more rewrite at the end. -/
theorem Leads.snoc {name last next : Iri} {names : List Iri}
    (leads : table.Leads name names last) (rewritten : table.Rewrites last next) :
    table.Leads name (names ++ [next]) next := by
  induction leads with
  | here name => exact .on name next next [] rewritten (.here next)
  | on name other last names first _ ih => exact .on name other next _ first (ih rewritten)

/-- A chain is what the rules lead through. -/
theorem Follows.leads {names : List Iri} {rules : List Nat} {last : Iri}
    (chain : table.Follows target names rules last) :
    ∃ ahead, names = target :: ahead ∧ ahead.length = rules.length ∧
      table.Leads target ahead last := by
  induction chain with
  | nil => exact ⟨[], rfl, rfl, .here target⟩
  | step names rules last next index _ applied ih =>
    obtain ⟨ahead, rfl, counted, leads⟩ := ih
    refine ⟨ahead ++ [next], rfl, by simp [counted], ?_⟩
    exact leads.snoc ((rewrites_iff table last next).mpr ⟨index, applied⟩)

/-- What the rules lead to is the name itself or one that they lead through. -/
theorem Leads.last_mem {name last : Iri} {names : List Iri} (leads : table.Leads name names last) :
    last ∈ name :: names := by
  induction leads with
  | here name => exact List.mem_cons_self
  | on name next last names _ _ ih => exact List.mem_cons_of_mem _ ih

/-- Where the rules lead on from a name, they lead there first. -/
theorem Leads.splits {name last reserved : Iri} {names : List Iri}
    (leads : table.Leads name names last) (member : reserved ∈ (name :: names).dropLast) :
    ∃ ahead behind, names = ahead ++ behind ∧ table.Leads name ahead reserved ∧
      table.Leads reserved behind last ∧ behind ≠ [] := by
  induction leads with
  | here name => cases member
  | on name next last names rewritten further ih =>
    rw [List.dropLast_cons_of_ne_nil (List.cons_ne_nil next names)] at member
    rcases List.mem_cons.mp member with rfl | later
    · exact ⟨[], next :: names, rfl, .here reserved,
        .on reserved next last names rewritten further, List.cons_ne_nil next names⟩
    · obtain ⟨ahead, behind, rfl, toward, onward, some⟩ := ih later
      exact ⟨next :: ahead, behind, rfl, .on name next reserved ahead rewritten toward, onward, some⟩

/-- Without a detour no chain within the budget goes on from a name of the kernel's. -/
theorem NoDetour.keeps_out (straight : table.NoDetour target) {names : List Iri}
    {rules : List Nat} {last : Iri} (chain : table.Follows target names rules last)
    (ended : table.step last = none) (within : rules.length < table.maxHops) (sane : Sane names)
    (free : kernelOp target = none) : ∀ name ∈ names.dropLast, kernelOp name = none := by
  intro name member
  cases asked : kernelOp name with
  | none => rfl
  | some op =>
    obtain ⟨all, rfl, counted, leads⟩ := chain.leads
    obtain ⟨ahead, behind, rfl, toward, onward, some⟩ := leads.splits member
    rw [← counted, List.length_append] at within
    have kernel : (kernelOp name).isSome = true := by rw [asked]; rfl
    exact absurd ⟨ahead, name, behind, last, free, toward, kernel, onward, some,
      (unmatched_iff table last).mpr ended, within, sane.valid, sane.distinct⟩ straight

/-- A rewrite is confluent along its chain exactly when the rules make no detour through the
kernel's namespace. -/
theorem confluent_iff_no_detour (table : AliasTable) (target : Iri) :
    table.ConfluentAt target ↔ table.NoDetour target := by
  constructor
  · rintro confluent ⟨ahead, reserved, behind, last, free, toward, kernel, onward, some, ended,
      within, valid, distinct⟩
    obtain ⟨first, counted, chain⟩ := toward.follows .nil
    obtain ⟨more, countedMore, whole⟩ := onward.follows chain
    have length : ([] ++ first ++ more).length = ahead.length + behind.length := by
      simp [counted, countedMore]
    have sane : Sane ([target] ++ ahead ++ behind) := by
      rw [List.append_assoc]
      exact ⟨valid, distinct⟩
    have nonempty : 0 < behind.length := List.length_pos_iff.mpr some
    have aliased := followed_within free whole ((unmatched_iff table last).mp ended)
      (by omega) (by omega) sane
    have among : reserved ∈ ([target] ++ ahead ++ behind).dropLast := by
      rw [List.dropLast_append_of_ne_nil some]
      exact List.mem_append_left _ (toward.last_mem)
    rw [confluent.reserved _ _ aliased whole reserved among] at kernel
    cases kernel
  · intro straight
    have whole : ∀ hop names, table.canonicalize target = .aliased hop →
        table.Follows target names hop.rules hop.canonical →
          kernelOp target = none ∧ table.step hop.canonical = none ∧
            hop.rules.length < table.maxHops ∧ Sane names := by
      intro hop names aliased chain
      obtain ⟨free, other, followed, ended, within, sane, _⟩ := aliased_chain hop aliased
      obtain ⟨rfl, _⟩ := chain.same_names followed rfl
      exact ⟨free, ended, within, sane⟩
    have reserved : ∀ hop names, table.canonicalize target = .aliased hop →
        table.Follows target names hop.rules hop.canonical → ∀ name ∈ names.dropLast,
          kernelOp name = none := by
      intro hop names aliased chain name member
      obtain ⟨free, ended, within, sane⟩ := whole hop names aliased chain
      exact straight.keeps_out chain ended within sane free name member
    refine ⟨?_, ?_, reserved⟩
    · intro hop names aliased chain
      exact direct_of_ended hop.canonical (whole hop names aliased chain).2.1
    · intro hop names aliased chain name member
      obtain ⟨_, ended, within, sane⟩ := whole hop names aliased chain
      have free := reserved hop names aliased chain name member
      -- the name stands somewhere before the last, and the rest of the chain is its own
      obtain ⟨before, after, front⟩ := List.append_of_mem member
      have split : names = before ++ name :: (after ++ [names.getLast chain.names_nonempty]) := by
        have rejoined := List.dropLast_append_getLast chain.names_nonempty
        rw [front] at rejoined
        rw [← List.cons_append, ← List.append_assoc]
        exact rejoined.symm
      obtain ⟨earlier, later, parts, counted, onward⟩ := chain.from_name before _ name split
      rw [List.length_append, List.length_singleton] at counted
      refine ⟨later, followed_within free onward ended (by omega) ?_ ?_⟩
      · have shorter := congrArg List.length parts
        rw [List.length_append] at shorter
        omega
      · rw [split] at sane
        exact sane.from_name

end AliasTable

namespace KernelNameExample

local instance anyIri : IriSyntax := ⟨fun _ => true, fun _ => []⟩

def retire : Iri := "urn:example:retire".toList

def cut : Iri := "urn:kernel:cut".toList

def elsewhere : Iri := "urn:example:elsewhere".toList

/-- One rule rewrites to a kernel name, and another away from it. -/
def table : AliasTable :=
  .ofRules [.plain .exact retire cut .child, .plain .exact cut elsewhere .child]

/-- The kernel's name is rewritten away on a chain, and stands when it is asked for. -/
theorem kernel_name_rewritten_away :
    table.canonicalize retire = .aliased ⟨retire, elsewhere, [0, 1]⟩ ∧
      table.canonicalize cut = .direct ∧ ¬table.ConfluentAt retire := by
  have aliased : table.canonicalize retire = .aliased ⟨retire, elsewhere, [0, 1]⟩ := by
    decide
  refine ⟨aliased, by decide, fun confluent => ?_⟩
  have chain : table.Follows retire [retire, cut, elsewhere] [0, 1] elsewhere :=
    .step [retire, cut] [0] cut elsewhere 1
      (.step [retire] [] retire cut 0 .nil (by decide)) (by decide)
  have free := confluent.reserved _ _ aliased chain cut (by simp)
  exact absurd free (by decide)

end KernelNameExample

end Ikigai
