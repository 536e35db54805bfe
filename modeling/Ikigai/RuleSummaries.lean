import Ikigai.AliasRoundTrip

/-!
# A table from what it states

An overlay states its rules one by one, in the order of its table. A rule that was accepted is
accepted again from what is stated of it, and is the same rule: what its fixed arguments and its
inputs are held to does not depend on the order they stand in. So a table is read back whole.
-/

namespace Ikigai

/-- What is sorted by a key stays as it is. -/
theorem insertion_sort_by_twice {α : Type} (key : α → Text) (items : List α) :
    (items.insertionSort fun first second => key first ≤ key second).insertionSort
        (fun first second => key first ≤ key second) =
      items.insertionSort fun first second => key first ≤ key second := by
  have : Std.Total fun first second : α => key first ≤ key second :=
    ⟨fun first second => le_total (key first) (key second)⟩
  have : IsTrans α fun first second => key first ≤ key second :=
    ⟨fun _ _ _ below above => le_trans below above⟩
  exact (List.pairwise_insertionSort _ items).insertionSort_eq

namespace DeclaredRule

theorem check_name_of_source {rule other : DeclaredRule} (same : rule.source = other.source)
    (name : Text) (what : String) : rule.checkName name what = other.checkName name what := by
  unfold checkName refuse
  rw [same]

theorem logical_template_unmarked {rule : DeclaredRule} (unmarked : rule.template = false) :
    rule.logicalTemplate = .ok none := by
  rw [logicalTemplate, unmarked, if_neg Bool.false_ne_true]

variable [IriSyntax]

theorem check_fixed_of_source {rule other : DeclaredRule} (same : rule.source = other.source)
    (vars : List Text) (argument : FixedArgument) :
    rule.checkFixed vars argument = other.checkFixed vars argument := by
  unfold checkFixed refuse
  rw [same]

/-- What a fixed argument is held to by itself. -/
def Fixes (rule : DeclaredRule) (vars : List Text) (argument : FixedArgument) : Prop :=
  rule.checkName argument.name "it fixes" = .ok () ∧ argument.name ≠ "as".toList ∧
    rule.checkFixed vars argument = .ok ()

/-- What a declared input is held to by itself. -/
def Declares (rule : DeclaredRule) (input : ArgSpec) : Prop :=
  rule.checkName input.name "it declares" = .ok () ∧ input.source ≠ .binding ∧
    input.declarable = true

/-- The fixed arguments pass exactly when each does and no name comes twice. -/
theorem check_fixes_iff (rule : DeclaredRule) (vars : List Text) (fixes : List FixedArgument)
    (names taken : List Text) :
    rule.checkFixes vars fixes names = .ok taken ↔
      (∀ argument ∈ fixes, rule.Fixes vars argument) ∧
        (fixes.map FixedArgument.name).Nodup ∧
        (∀ argument ∈ fixes, argument.name ∉ names) ∧
        taken = names ++ fixes.map FixedArgument.name := by
  induction fixes generalizing names with
  | nil =>
    rw [checkFixes]
    simp [eq_comm]
  | cons argument rest ih =>
    rw [checkFixes]
    cases valid : rule.checkName argument.name "it fixes" with
    | error refusal => simp [Fixes, valid, bind, Except.bind]
    | ok passed =>
      simp only [bind, Except.bind]
      by_cases facing : argument.name = "as".toList
      · rw [if_pos facing]
        simp [Fixes, facing]
      · rw [if_neg facing]
        by_cases again : argument.name ∈ names
        · rw [if_pos again]
          simp [again]
        · rw [if_neg again]
          cases fixed : rule.checkFixed vars argument with
          | error refusal => simp [Fixes, fixed]
          | ok passed' =>
            simp only [ih, List.forall_mem_cons, List.map_cons, List.nodup_cons, Fixes, valid,
              fixed, List.mem_append, List.mem_singleton, not_or, List.append_assoc,
              List.singleton_append, List.mem_map, not_exists, not_and]
            constructor
            · rintro ⟨each, once, apart, taken⟩
              exact ⟨⟨⟨trivial, facing, trivial⟩, each⟩,
                ⟨fun other inside same => (apart other inside).2 same, once⟩,
                ⟨again, fun other inside => (apart other inside).1⟩, taken⟩
            · rintro ⟨⟨_, each⟩, ⟨fresh, once⟩, ⟨_, apart⟩, taken⟩
              exact ⟨each, once,
                fun other inside => ⟨apart other inside, fresh other inside⟩, taken⟩

omit [IriSyntax] in
/-- The declared inputs pass exactly when each does and no name comes twice. -/
theorem check_inputs_iff (rule : DeclaredRule) (inputs : List ArgSpec) (names : List Text) :
    rule.checkInputs inputs names = .ok () ↔
      (∀ input ∈ inputs, rule.Declares input) ∧ (inputs.map ArgSpec.name).Nodup ∧
        ∀ input ∈ inputs, input.name ∉ names := by
  induction inputs generalizing names with
  | nil =>
    rw [checkInputs]
    simp
  | cons input rest ih =>
    rw [checkInputs]
    cases valid : rule.checkName input.name "it declares" with
    | error refusal => simp [Declares, valid, bind, Except.bind]
    | ok passed =>
      simp only [bind, Except.bind]
      by_cases again : input.name ∈ names
      · rw [if_pos again]
        simp [again]
      · rw [if_neg again]
        by_cases bound : input.source = .binding
        · rw [if_pos bound]
          simp [Declares, bound]
        · rw [if_neg bound]
          cases stated : input.declarable with
          | false => simp [Declares, stated]
          | true =>
            rw [Bool.not_true, if_neg Bool.false_ne_true]
            simp only [ih, List.forall_mem_cons, List.map_cons, List.nodup_cons, Declares, valid,
              stated, List.mem_append, List.mem_singleton, not_or, List.mem_map, not_exists,
              not_and]
            constructor
            · rintro ⟨each, once, apart⟩
              exact ⟨⟨⟨trivial, bound, trivial⟩, each⟩,
                ⟨fun other inside same => (apart other inside).2 same, once⟩,
                again, fun other inside => (apart other inside).1⟩
            · rintro ⟨⟨_, each⟩, ⟨fresh, once⟩, _, apart⟩
              exact ⟨each, once, fun other inside => ⟨apart other inside, fresh other inside⟩⟩

/-- What a named request's arguments are held to, whatever the order they stand in. -/
structure Consistent (rule : DeclaredRule) (vars : List Text) (fixes : List FixedArgument)
    (inputs : List ArgSpec) : Prop where
  each : ∀ argument ∈ fixes, rule.Fixes vars argument
  declares : ∀ input ∈ inputs, rule.Declares input
  once : (fixes.map FixedArgument.name).Nodup
  again : (inputs.map ArgSpec.name).Nodup
  apart : ∀ input ∈ inputs, input.name ∉ fixes.map FixedArgument.name

theorem consistent_iff (rule : DeclaredRule) (vars : List Text) (fixes : List FixedArgument)
    (inputs : List ArgSpec) :
    (∃ names, rule.checkFixes vars fixes [] = .ok names ∧
      rule.checkInputs inputs names = .ok ()) ↔ rule.Consistent vars fixes inputs := by
  constructor
  · rintro ⟨names, fixed, declared⟩
    obtain ⟨each, once, _, rfl⟩ := (rule.check_fixes_iff vars fixes [] names).mp fixed
    obtain ⟨declares, again, apart⟩ := (rule.check_inputs_iff inputs _).mp declared
    exact ⟨each, declares, once, again, apart⟩
  · rintro ⟨each, declares, once, again, apart⟩
    exact ⟨[] ++ fixes.map FixedArgument.name,
      (rule.check_fixes_iff vars fixes [] _).mpr ⟨each, once, fun _ _ => List.not_mem_nil, rfl⟩,
      (rule.check_inputs_iff inputs _).mpr ⟨declares, again, apart⟩⟩

/-- The order is nothing to it, nor is what else the rule says. -/
theorem Consistent.of_perm {rule other : DeclaredRule} {vars : List Text}
    {fixes others : List FixedArgument} {inputs further : List ArgSpec}
    (same : rule.source = other.source) (fixed : fixes.Perm others) (declared : inputs.Perm further)
    (consistent : rule.Consistent vars fixes inputs) : other.Consistent vars others further where
  each := by
    intro argument inside
    obtain ⟨named, apart, passes⟩ := consistent.each argument (fixed.mem_iff.mpr inside)
    exact ⟨check_name_of_source same _ _ ▸ named, apart, check_fixed_of_source same _ _ ▸ passes⟩
  declares := by
    intro input inside
    obtain ⟨named, rest⟩ := consistent.declares input (declared.mem_iff.mpr inside)
    exact ⟨check_name_of_source same _ _ ▸ named, rest⟩
  once := (fixed.map FixedArgument.name).nodup_iff.mp consistent.once
  again := (declared.map ArgSpec.name).nodup_iff.mp consistent.again
  apart := by
    intro input inside
    rw [← (fixed.map FixedArgument.name).mem_iff]
    exact consistent.apart input (declared.mem_iff.mpr inside)

/-- What a named request is read as, and when it is. -/
theorem request_part_named_iff (rule : DeclaredRule) (named : rule.isNamed = true)
    (part : RequestPart) :
    rule.requestPart = .ok part ↔
      rule.resolveAt = .root ∧ rule.logicalTemplate = .ok part.template ∧
        rule.targetTemplate ((part.template.map UriTemplate.variableNames).getD []) =
          .ok part.target ∧
        rule.verb ≠ some .«meta» ∧
        rule.Consistent ((part.template.map UriTemplate.variableNames).getD []) rule.fixes
          rule.inputs ∧
        part.verb = rule.verb ∧
        part.fixes = rule.fixes.insertionSort (fun first second => first.name ≤ second.name) ∧
        part.inputs = rule.inputs.insertionSort fun first second => first.name ≤ second.name := by
  obtain ⟨template, target, verb, fixes, inputs⟩ := part
  rw [requestPart, named, Bool.not_true, if_neg Bool.false_ne_true]
  by_cases rooted : rule.resolveAt = .root
  · rw [if_neg (not_not.mpr rooted)]
    cases logical : rule.logicalTemplate with
    | error refusal => simp [bind, Except.bind]
    | ok own =>
      simp only [bind, Except.bind]
      cases canonical : rule.targetTemplate ((own.map UriTemplate.variableNames).getD []) with
      | error refusal =>
        refine ⟨nofun, fun ⟨_, same, there, _⟩ => ?_⟩
        cases same
        rw [canonical] at there
        cases there
      | ok reached =>
        dsimp only
        by_cases asks : rule.verb = some .«meta»
        · rw [if_pos asks]
          exact ⟨nofun, fun ⟨_, _, _, other, _⟩ => absurd asks other⟩
        · rw [if_neg asks]
          have holds := rule.consistent_iff ((own.map UriTemplate.variableNames).getD [])
            rule.fixes rule.inputs
          cases fixed : rule.checkFixes ((own.map UriTemplate.variableNames).getD [])
              rule.fixes [] with
          | error refusal =>
            refine ⟨nofun, fun ⟨_, same, _, _, consistent, _⟩ => ?_⟩
            cases same
            obtain ⟨names, passed, _⟩ := holds.mpr consistent
            rw [fixed] at passed
            cases passed
          | ok names =>
            dsimp only
            cases declared : rule.checkInputs rule.inputs names with
            | error refusal =>
              refine ⟨nofun, fun ⟨_, same, _, _, consistent, _⟩ => ?_⟩
              cases same
              obtain ⟨others, passed, accepted⟩ := holds.mpr consistent
              rw [fixed] at passed
              cases passed
              rw [declared] at accepted
              cases accepted
            | ok passed =>
              dsimp only
              constructor
              · intro same
                cases same
                exact ⟨rooted, rfl, canonical, asks, holds.mp ⟨names, fixed, declared⟩, rfl, rfl,
                  rfl⟩
              · rintro ⟨_, same, there, _, _, rfl, rfl, rfl⟩
                cases same
                rw [canonical] at there
                cases there
                rfl
  · rw [if_pos rooted]
    exact ⟨nofun, fun both => absurd both.1 rooted⟩

/-- A rule is read when its part is. -/
theorem to_rule_of_part {rule : DeclaredRule} {part : RequestPart}
    (read : rule.requestPart = .ok part) :
    rule.toRule = .ok ⟨rule.kind, rule.source, rule.target, rule.resolveAt, part,
      rule.request_part_rooted part read⟩ := by
  unfold toRule
  split
  · rename_i other same
    rw [read] at same
    cases same
    rfl
  · rename_i refusal refused
    rw [read] at refused
    cases refused

end DeclaredRule

namespace AliasRule

variable [IriSyntax]

/-- A rule that a table's builders make. -/
inductive Made : AliasRule → Prop where
  | plain (kind : RuleKind) (source target : Text) (place : ResolveAt) :
      Made (.plain kind source target place)
  | declared (declared : DeclaredRule) (rule : AliasRule) (accepted : declared.toRule = .ok rule) :
      Made rule

/-- A plain rewrite states itself. -/
theorem summary_of_plain {rule : AliasRule} (bare : rule.request = .plain) :
    rule.summary.toRule = .ok rule := by
  obtain ⟨kind, source, target, place, request, rooted⟩ := rule
  cases bare
  exact DeclaredRule.to_rule_of_part rfl

/-- A rule that was made is read from its summary, as it is. -/
theorem summary_reads {rule : AliasRule} (made : rule.Made) : rule.summary.toRule = .ok rule := by
  cases made with
  | plain kind source target place => exact summary_of_plain rfl
  | declared declared _ accepted =>
    obtain ⟨kind, source, target, place, part⟩ := declared.to_rule_states rule accepted
    cases named : declared.isNamed with
    | false =>
      refine summary_of_plain ?_
      rw [DeclaredRule.requestPart, named] at part
      exact (Except.ok.inj part).symm
    | true =>
      obtain ⟨root, logical, canonical, verb, consistent, sameVerb, fixes, inputs⟩ :=
        (declared.request_part_named_iff named rule.request).mp part
      have marked : rule.request.template.isSome = declared.template := by
        cases flag : declared.template with
        | true => exact (declared.logical_template_marked _ flag logical).2
        | false =>
          rw [DeclaredRule.logical_template_unmarked flag] at logical
          rw [← Except.ok.inj logical]
          rfl
      have fixed : rule.request.fixes.Perm declared.fixes := fixes ▸ List.perm_insertionSort _ _
      have listed : rule.request.inputs.Perm declared.inputs :=
        inputs ▸ List.perm_insertionSort _ _
      have again : rule.summary.isNamed = true := by
        simp only [DeclaredRule.isNamed, Bool.or_eq_true, Bool.not_eq_true',
          List.isEmpty_eq_false_iff] at named ⊢
        simp only [summary, marked, sameVerb]
        refine named.imp (Or.imp_right fun some => ?_) fun some => ?_
        · exact fun none => some (by rw [none] at fixed; exact fixed.symm.eq_nil)
        · exact fun none => some (by rw [none] at listed; exact listed.symm.eq_nil)
      have read : rule.summary.requestPart = .ok rule.request := by
        refine (rule.summary.request_part_named_iff again rule.request).mpr
          ⟨place.trans root, ?_, ?_, ?_, ?_, rfl, ?_, ?_⟩
        · rw [← logical]
          simp only [DeclaredRule.logicalTemplate, DeclaredRule.readPattern, DeclaredRule.refuse,
            summary, marked, kind, source]
        · rw [← canonical]
          simp only [DeclaredRule.targetTemplate, DeclaredRule.readPattern, DeclaredRule.refuse,
            summary, source, target]
        · exact fun asks => verb (sameVerb ▸ asks)
        · exact consistent.of_perm source.symm fixed.symm listed.symm
        · rw [show rule.summary.fixes = rule.request.fixes from rfl, fixes,
            insertion_sort_by_twice]
        · rw [show rule.summary.inputs = rule.request.inputs from rfl, inputs,
            insertion_sort_by_twice]
      exact DeclaredRule.to_rule_of_part read

end AliasRule

namespace AliasTable

variable [IriSyntax]

/-- The table that rules declare, under a hop bound. -/
def ofDeclared (rules : List DeclaredRule) (maxHops : Nat) : Except DeclarationError AliasTable :=
  rules.foldlM withRule ((ofRules []).withMaxHops maxHops)

/-- A table as the builders leave it, of rules that they made. -/
structure Made (table : AliasTable) : Prop where
  built : table.Built
  rules : ∀ rule ∈ table.rules, rule.Made

/-- Rules in precedence order are added one behind the other. -/
theorem add_in_order (rules : List AliasRule) (table : AliasTable)
    (made : ∀ rule ∈ rules, rule.Made)
    (sorted : (table.rules ++ rules).Pairwise AliasRule.Precedes) :
    ∃ read, (rules.map AliasRule.summary).foldlM withRule table = .ok read ∧
      read.rules = table.rules ++ rules ∧ read.maxHops = table.maxHops := by
  induction rules generalizing table with
  | nil => exact ⟨table, rfl, (List.append_nil _).symm, rfl⟩
  | cons rule rest ih =>
    have split : table.rules ++ rule :: rest = table.rules ++ [rule] ++ rest := by simp
    rw [split] at sorted
    have last := table.insert_last rule (List.pairwise_append.mp sorted).1
    obtain ⟨read, accepted, rules, hops⟩ := ih (table.insert rule)
      (fun other inside => made other (List.mem_cons_of_mem rule inside)) (last.symm ▸ sorted)
    have added : table.withRule rule.summary = .ok (table.insert rule) := by
      rw [withRule, AliasRule.summary_reads (made rule List.mem_cons_self)]
      rfl
    refine ⟨read, ?_, ?_, hops⟩
    · rw [List.map_cons, List.foldlM_cons, added]
      exact accepted
    · rw [rules, last, split]

/-- A table is what its rules declare. -/
theorem of_declared_summaries (table : AliasTable) (made : table.Made) :
    ofDeclared (table.rules.map AliasRule.summary) table.maxHops = .ok table := by
  obtain ⟨read, accepted, rules, hops⟩ :=
    add_in_order table.rules ((ofRules []).withMaxHops table.maxHops) made.rules
      (table.built_sorted made.built)
  rw [ofDeclared, accepted]
  obtain ⟨readRules, readHops, readPositive⟩ := read
  obtain ⟨tableRules, tableHops, tablePositive⟩ := table
  obtain rfl : readRules = tableRules := rules
  obtain rfl : readHops = tableHops := hops.trans (Nat.max_eq_left tablePositive)
  rfl

/-- What rules declare is made. -/
theorem Made.add {table next : AliasTable} {rule : DeclaredRule} (made : table.Made)
    (added : table.withRule rule = .ok next) : next.Made := by
  rw [withRule] at added
  cases read : rule.toRule with
  | error refusal =>
    rw [read] at added
    cases added
  | ok own =>
    rw [read] at added
    cases added
    refine ⟨.insert table own made.built, fun other inside => ?_⟩
    rcases (table.mem_insert own other).mp inside with before | rfl
    · exact made.rules other before
    · exact .declared rule other read

theorem made_of_declared {rules : List DeclaredRule} {maxHops : Nat} {table : AliasTable}
    (read : ofDeclared rules maxHops = .ok table) : table.Made := by
  have run : ∀ (rules : List DeclaredRule) (start : AliasTable), start.Made →
      rules.foldlM withRule start = .ok table → table.Made := by
    intro rules
    induction rules with
    | nil =>
      intro start made same
      cases same
      exact made
    | cons rule rest ih =>
      intro start made read
      rw [List.foldlM_cons] at read
      cases added : start.withRule rule with
      | error refusal =>
        rw [added] at read
        cases read
      | ok next =>
        rw [added] at read
        exact ih next (made.add added) read
  exact run rules _ ⟨.withMaxHops _ maxHops .new, nofun⟩ read

end AliasTable

end Ikigai
