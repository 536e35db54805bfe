import Ikigai.AliasChains
import Ikigai.AliasViews
import Ikigai.Fallible

/-!
# Named requests

A call through a chain of rules is its caller's arguments with what every rule of the chain fixes
and the defaults that are left. The parts of a view are one list of entries merged in order, and
one invariant of that merge says what the arguments are after any of it: what the caller gave
stands, what was fixed is there once and with its own value, and the rest is a first default.
-/

namespace Ikigai

/-- No argument has a name exactly when none is called so. -/
theorem arg_named_none_iff (args : List (Text × ArgRef)) (name : Text) :
    argNamed args name = none ↔ (args.any fun argument => argument.1 = name) = false := by
  rw [argNamed, Option.map_eq_none_iff, List.find?_eq_none, List.any_eq_false]

/-- Looking up past a split of the entries of which neither holds the name in front. -/
theorem arg_named_append (front back : List (Text × ArgRef)) (name : Text) :
    argNamed (front ++ back) name = (argNamed front name <|> argNamed back name) := by
  unfold argNamed
  rw [List.find?_append]
  cases front.find? fun entry => entry.1 = name <;> rfl

/-- The first argument of a name is the one that counts. -/
theorem arg_named_cons (entry : Text × ArgRef) (args : List (Text × ArgRef)) (name : Text) :
    argNamed (entry :: args) name =
      if entry.1 = name then some entry.2 else argNamed args name := by
  unfold argNamed
  rw [List.find?_cons]
  by_cases same : entry.1 = name <;> simp [same]

/-- A new argument is found under its name, and every other as before. -/
theorem arg_named_put {args : List (Text × ArgRef)} {name : Text} (value : ArgRef)
    (fresh : argNamed args name = none) (other : Text) :
    argNamed (putArgument args name value) other =
      if name = other then some value else argNamed args other := by
  have split := List.takeWhile_append_dropWhile (p := fun argument => argument.1 < name) (l := args)
  have whole : argNamed args other =
      (argNamed (args.takeWhile fun argument => argument.1 < name) other <|>
        argNamed (args.dropWhile fun argument => argument.1 < name) other) := by
    rw [← arg_named_append, split]
  rw [putArgument, arg_named_append, arg_named_cons]
  by_cases same : name = other
  · subst same
    rw [whole] at fresh
    have front : argNamed (args.takeWhile fun argument => argument.1 < name) name = none := by
      cases found : argNamed (args.takeWhile fun argument => argument.1 < name) name with
      | none => rfl
      | some value => rw [found] at fresh; cases fresh
    rw [front, if_pos rfl, if_pos rfl]
    rfl
  · rw [if_neg same, if_neg same, whole]

/-- Putting an argument leaves those there are, in their order. -/
theorem put_argument_sublist (args : List (Text × ArgRef)) (name : Text) (value : ArgRef) :
    args.Sublist (putArgument args name value) := by
  have wider := (List.sublist_cons_self (name, value)
    (args.dropWhile fun argument => argument.1 < name)).append_left
      (args.takeWhile fun argument => argument.1 < name)
  rwa [List.takeWhile_append_dropWhile] at wider

/-- A default fills nothing that was given. -/
theorem fill_argument_given {args : List (Text × ArgRef)} {name : Text} (text : Text)
    (given : argNamed args name ≠ none) : fillArgument args name text = args := by
  rw [Ne, arg_named_none_iff, Bool.not_eq_false] at given
  rw [fillArgument, if_pos given]

/-- It fills what was not given. -/
theorem fill_argument_fresh {args : List (Text × ArgRef)} {name : Text} (text : Text)
    (fresh : argNamed args name = none) :
    fillArgument args name text = putArgument args name (.inline text.asBytes) := by
  rw [arg_named_none_iff] at fresh
  rw [fillArgument, fresh]
  rfl

/-- A default stands where nothing was given. -/
theorem arg_named_fill (args : List (Text × ArgRef)) (name text other : Text) :
    argNamed (fillArgument args name text) other =
      (argNamed args other <|> if name = other then some (.inline text.asBytes) else none) := by
  by_cases fresh : argNamed args name = none
  · rw [fill_argument_fresh text fresh, arg_named_put _ fresh]
    by_cases same : name = other
    · subst same
      rw [if_pos rfl, if_pos rfl, fresh]
      rfl
    · rw [if_neg same, if_neg same]
      cases argNamed args other <;> rfl
  · rw [fill_argument_given text fresh]
    by_cases same : name = other
    · subst same
      obtain ⟨value, given⟩ := Option.ne_none_iff_exists'.mp fresh
      rw [given]
      rfl
    · rw [if_neg same]
      cases argNamed args other <;> rfl

/-- What a part merges into a call, one after the other. -/
inductive CallEntry where
  | fixed (holder : Iri) (binding : Binding)
  | declared (input : ArgSpec)

namespace CallEntry

def merge (args : List (Text × ArgRef)) : CallEntry → Except Error (List (Text × ArgRef))
  | .fixed holder binding => BoundPart.fix holder args binding
  | .declared input => BoundPart.declare args input

def fixedName : CallEntry → Option Text
  | .fixed _ binding => some binding.name
  | .declared _ => none

def defaultFor (name : Text) : CallEntry → Option Text
  | .fixed _ _ => none
  | .declared input => if input.name = name then input.default else none

end CallEntry

def fixedNames (entries : List CallEntry) : List Text := entries.filterMap CallEntry.fixedName

/-- The first default that is declared for a name. -/
def firstDefault (entries : List CallEntry) (name : Text) : Option Text :=
  entries.findSome? (CallEntry.defaultFor name)

/-- A name is fixed exactly where an entry fixes it. -/
theorem mem_fixed_names {entries : List CallEntry} {name : Text}
    (among : name ∈ fixedNames entries) :
    ∃ holder binding, CallEntry.fixed holder binding ∈ entries ∧ binding.name = name := by
  obtain ⟨entry, inside, named⟩ := List.mem_filterMap.mp among
  cases entry with
  | fixed holder binding => exact ⟨holder, binding, inside, Option.some.inj named⟩
  | declared input => cases named

theorem fixed_names_append (entries others : List CallEntry) :
    fixedNames (entries ++ others) = fixedNames entries ++ fixedNames others :=
  List.filterMap_append

/-- The first default of a name is the one that counts. -/
theorem first_default_append (entries others : List CallEntry) (name : Text) :
    firstDefault (entries ++ others) name =
      (firstDefault entries name <|> firstDefault others name) := by
  unfold firstDefault
  rw [List.findSome?_append]
  cases entries.findSome? (CallEntry.defaultFor name) <;> rfl

/-- What the arguments of a call are once some entries have been merged into it. -/
structure Merging (start args : List (Text × ArgRef)) (past : List CallEntry) : Prop where
  given : ∀ name value, argNamed start name = some value → argNamed args name = some value
  ungiven : ∀ name ∈ fixedNames past, argNamed start name = none
  once : (fixedNames past).Nodup
  fixed : ∀ holder binding, CallEntry.fixed holder binding ∈ past →
    ∃ value, binding.value = .ok value ∧ argNamed args binding.name = some value
  left : ∀ name, argNamed start name = none → name ∉ fixedNames past →
    argNamed args name = (firstDefault past name).map fun text => .inline text.asBytes
  kept : start.Sublist args

/-- Nothing is changed by no entries. -/
theorem Merging.nil (start : List (Text × ArgRef)) : Merging start start [] where
  given _ _ given := given
  ungiven _ among := nomatch among
  once := List.nodup_nil
  fixed _ _ inside := nomatch inside
  left _ fresh _ := fresh
  kept := List.Sublist.refl start

/-- A merge that fixes an argument found none of its name. -/
theorem fix_ok {holder : Iri} {args next : List (Text × ArgRef)} {binding : Binding}
    (fixed : BoundPart.fix holder args binding = .ok next) :
    argNamed args binding.name = none ∧
      ∃ value, binding.value = .ok value ∧ next = putArgument args binding.name value := by
  unfold BoundPart.fix at fixed
  split at fixed
  · cases fixed
  · rename_i fresh
    refine ⟨(arg_named_none_iff args binding.name).mpr (Bool.eq_false_iff.mpr fresh), ?_⟩
    cases sent : binding.value with
    | error detail =>
      rw [sent] at fixed
      cases fixed
    | ok value =>
      rw [sent] at fixed
      exact ⟨value, rfl, (Except.ok.inj fixed).symm⟩

/-- A binding that goes through adds its name, which was not given before. -/
theorem Merging.fix {start args next : List (Text × ArgRef)} {past : List CallEntry} {holder : Iri}
    {binding : Binding} (merging : Merging start args past)
    (fixed : BoundPart.fix holder args binding = .ok next) :
    Merging start next (past ++ [.fixed holder binding]) := by
  obtain ⟨fresh, value, sent, rfl⟩ := fix_ok fixed
  have names : fixedNames (past ++ [.fixed holder binding]) = fixedNames past ++ [binding.name] :=
    fixed_names_append past _
  have stands : ∀ name found, argNamed args name = some found →
      argNamed (putArgument args binding.name value) name = some found := by
    intro name found there
    rw [arg_named_put value fresh, if_neg, there]
    rintro rfl
    rw [fresh] at there
    cases there
  have new : binding.name ∉ fixedNames past := by
    intro among
    obtain ⟨holder', binding', inside, same⟩ := mem_fixed_names among
    obtain ⟨found, _, there⟩ := merging.fixed holder' binding' inside
    rw [same, fresh] at there
    cases there
  constructor
  · intro name found given
    exact stands name found (merging.given name found given)
  · intro name among
    rw [names, List.mem_append, List.mem_singleton] at among
    rcases among with among | rfl
    · exact merging.ungiven name among
    · cases given : argNamed start binding.name with
      | none => rfl
      | some found =>
        rw [merging.given _ _ given] at fresh
        cases fresh
  · rw [names]
    exact List.Nodup.append merging.once (List.nodup_singleton _)
      (List.disjoint_singleton.mpr new)
  · intro holder' binding' inside
    rw [List.mem_append, List.mem_singleton] at inside
    rcases inside with inside | same
    · obtain ⟨found, sent', there⟩ := merging.fixed holder' binding' inside
      exact ⟨found, sent', stands _ _ there⟩
    · cases same
      exact ⟨value, sent, by rw [arg_named_put value fresh, if_pos rfl]⟩
  · intro name ungiven free
    rw [names, List.mem_append, List.mem_singleton, not_or] at free
    rw [arg_named_put value fresh, if_neg (Ne.symm free.2), merging.left name ungiven free.1,
      first_default_append]
    cases firstDefault past name <;> rfl
  · exact merging.kept.trans (put_argument_sublist args binding.name value)

/-- After an input's default a name is what it was, or else that default. -/
theorem arg_named_with_default (args : List (Text × ArgRef)) (input : ArgSpec) (name : Text) :
    argNamed (BoundPart.withDefault args input) name =
      (argNamed args name <|>
        (CallEntry.defaultFor name (.declared input)).map fun text => .inline text.asBytes) := by
  cases stated : input.default with
  | none =>
    have bare : CallEntry.defaultFor name (.declared input) = none := by
      rw [CallEntry.defaultFor, stated, ite_self]
    rw [BoundPart.withDefault, stated, bare]
    cases argNamed args name <;> rfl
  | some text =>
    rw [BoundPart.withDefault, stated]
    dsimp only
    rw [arg_named_fill, CallEntry.defaultFor, stated]
    split <;> rfl

/-- Defaults leave the arguments there are, in their order. -/
theorem with_default_sublist (args : List (Text × ArgRef)) (input : ArgSpec) :
    args.Sublist (BoundPart.withDefault args input) := by
  unfold BoundPart.withDefault
  cases input.default with
  | none => exact List.Sublist.refl args
  | some text =>
    dsimp only
    by_cases fresh : argNamed args input.name = none
    · rw [fill_argument_fresh text fresh]
      exact put_argument_sublist args input.name _
    · rw [fill_argument_given text fresh]

/-- A merge that declares an input held what the input is. -/
theorem declare_ok {args next : List (Text × ArgRef)} {input : ArgSpec}
    (declared : BoundPart.declare args input = .ok next) :
    next = BoundPart.withDefault args input ∧
      ∀ value, argNamed next input.name = some value → heldToContract input value = .ok () := by
  unfold BoundPart.declare at declared
  cases there : argNamed (BoundPart.withDefault args input) input.name with
  | none =>
    rw [there] at declared
    obtain rfl := Except.ok.inj declared
    refine ⟨rfl, fun value found => ?_⟩
    rw [there] at found
    cases found
  | some value =>
    rw [there] at declared
    dsimp only at declared
    cases held : heldToContract input value with
    | error failure =>
      rw [held] at declared
      cases declared
    | ok done =>
      rw [held] at declared
      obtain rfl := Except.ok.inj declared
      refine ⟨rfl, fun other found => ?_⟩
      rw [there] at found
      exact Option.some.inj found ▸ held

/-- A declared input that goes through was given, has a default, or may be left out. -/
theorem Merging.declare {start args next : List (Text × ArgRef)} {past : List CallEntry}
    {input : ArgSpec} (merging : Merging start args past)
    (declared : BoundPart.declare args input = .ok next) :
    Merging start next (past ++ [.declared input]) := by
  obtain ⟨rfl, _⟩ := declare_ok declared
  have names : fixedNames (past ++ [.declared input]) = fixedNames past :=
    (fixed_names_append past _).trans (List.append_nil _)
  have stands : ∀ name found, argNamed args name = some found →
      argNamed (BoundPart.withDefault args input) name = some found := by
    intro name found there
    rw [arg_named_with_default, there]
    rfl
  constructor
  · intro name found given
    exact stands name found (merging.given name found given)
  · rw [names]
    exact merging.ungiven
  · rw [names]
    exact merging.once
  · intro holder binding inside
    rw [List.mem_append, List.mem_singleton] at inside
    rcases inside with inside | same
    · obtain ⟨found, sent, there⟩ := merging.fixed holder binding inside
      exact ⟨found, sent, stands _ _ there⟩
    · cases same
  · intro name ungiven free
    rw [names] at free
    rw [arg_named_with_default, merging.left name ungiven free, first_default_append]
    have single :
        firstDefault [.declared input] name = CallEntry.defaultFor name (.declared input) := by
      rw [firstDefault, List.findSome?_cons]
      cases CallEntry.defaultFor name (.declared input) <;> rfl
    rw [single]
    cases firstDefault past name <;> rfl
  · exact merging.kept.trans (with_default_sublist args input)

/-- The invariant of a merge, over one entry. -/
theorem Merging.step {start args next : List (Text × ArgRef)} {past : List CallEntry}
    {entry : CallEntry}
    (merging : Merging start args past) (merged : entry.merge args = .ok next) :
    Merging start next (past ++ [entry]) := by
  cases entry with
  | fixed holder binding => exact merging.fix merged
  | declared input => exact merging.declare merged

/-- And over a list of them. -/
theorem Merging.run {start args next : List (Text × ArgRef)} {past entries : List CallEntry}
    (merging : Merging start args past) (merged : entries.foldlM CallEntry.merge args = .ok next) :
    Merging start next (past ++ entries) := by
  induction entries generalizing args past with
  | nil =>
    obtain rfl := Except.ok.inj merged
    rwa [List.append_nil]
  | cons entry entries ih =>
    rw [List.foldlM_cons] at merged
    obtain ⟨between, first, rest⟩ := Except.of_bind merged
    have whole := ih (merging.step first) rest
    rwa [List.append_assoc] at whole

/-- What a part merges, in order. -/
def BoundPart.entries (part : BoundPart) : List CallEntry :=
  part.fixed.map (.fixed part.name) ++ part.inputs.map .declared

/-- A part is merged when it forwards the verb and each of its entries is. -/
theorem BoundPart.merge_ok_iff (part : BoundPart) (verb : Verb) (args next : List (Text × ArgRef)) :
    part.merge verb args = .ok next ↔
      part.checkVerb verb = .ok () ∧ part.entries.foldlM CallEntry.merge args = .ok next := by
  have entries : part.entries.foldlM CallEntry.merge args =
      (part.fixed.foldlM (BoundPart.fix part.name) args >>= fun args =>
        part.inputs.foldlM BoundPart.declare args) := by
    rw [BoundPart.entries, List.foldlM_append, List.foldlM_map]
    simp only [List.foldlM_map]
    rfl
  rw [BoundPart.merge, entries]
  cases part.checkVerb verb with
  | error failure => exact ⟨nofun, fun both => nomatch both.1⟩
  | ok done => exact ⟨fun merged => ⟨rfl, merged⟩, And.right⟩

/-- A call is merged with the parts of a view when each forwards its verb and the entries of them
all are merged. -/
theorem parts_ok_iff (parts : List BoundPart) (verb : Verb) (args next : List (Text × ArgRef)) :
    parts.foldlM (fun args part => part.merge verb args) args = .ok next ↔
      (∀ part ∈ parts, part.checkVerb verb = .ok ()) ∧
        (parts.flatMap BoundPart.entries).foldlM CallEntry.merge args = .ok next := by
  induction parts generalizing args with
  | nil => exact ⟨fun merged => ⟨nofun, merged⟩, And.right⟩
  | cons part parts ih =>
    rw [List.foldlM_cons, List.flatMap_cons, List.foldlM_append]
    constructor
    · intro merged
      obtain ⟨between, first, rest⟩ := Except.of_bind merged
      obtain ⟨forwards, entries⟩ := (part.merge_ok_iff verb args between).mp first
      obtain ⟨others, later⟩ := (ih between).mp rest
      refine ⟨List.forall_mem_cons.mpr ⟨forwards, others⟩, ?_⟩
      rw [entries]
      exact later
    · rintro ⟨forwards, merged⟩
      obtain ⟨between, entries, later⟩ := Except.of_bind merged
      obtain ⟨own, others⟩ := List.forall_mem_cons.mp forwards
      rw [(part.merge_ok_iff verb args between).mpr ⟨own, entries⟩]
      exact (ih between).mpr ⟨others, later⟩

/-- A request that a view forwards keeps its verb, goes to the view's target, and passed every
part's check of its verb. -/
theorem ViewEndpoint.forwarded_ok {view : ViewEndpoint} {request out : Request}
    (forwarded : view.forwarded request = .ok out) :
    out.target = view.target ∧ out.verb = request.verb ∧
      (∀ part ∈ view.parts, part.checkVerb request.verb = .ok ()) ∧
        (view.parts.flatMap BoundPart.entries).foldlM CallEntry.merge request.args =
          .ok out.args := by
  obtain ⟨args, merged, same⟩ := Except.of_bind forwarded
  obtain rfl := Except.ok.inj same
  exact ⟨rfl, rfl, (parts_ok_iff view.parts request.verb request.args args).mp merged⟩

/-- A rule of a chain, the name it matched and what it captured of it. -/
structure Turn where
  rule : AliasRule
  name : Iri
  captures : List (Text × Text)

namespace Turn

def fixes (turn : Turn) : List FixedArgument := turn.rule.request.fixes

def inputs (turn : Turn) : List ArgSpec := turn.rule.request.inputs

end Turn

section Replaying

variable [IriSyntax]

/-- Some rules of a table take a name to another, each at the name the one before made. -/
inductive AliasTable.Replays (table : AliasTable) : Iri → List Nat → List Turn → Iri → Prop where
  | nil (name : Iri) : Replays table name [] [] name
  | cons (index : Nat) (rule : AliasRule) (name next : Iri) (captures : List (Text × Text))
      (rest : List Nat) (turns : List Turn) (last : Iri)
      (listed : table.rules[index]? = some rule)
      (applied : rule.applyCapturing name = some (next, captures))
      (valid : Iri.parse next = some next)
      (later : Replays table next rest turns last) :
      Replays table name (index :: rest) (⟨rule, name, captures⟩ :: turns) last

namespace AliasTable

variable {table : AliasTable}

/-- The first rule that matches a name is listed, and makes the next name of it. -/
theorem step_listed {name : Iri} {index : Nat} {next : Text}
    (stepped : table.step name = some (index, next)) :
    ∃ rule captures, table.rules[index]? = some rule ∧
      rule.applyCapturing name = some (next, captures) := by
  unfold step at stepped
  obtain ⟨entry, inside, made⟩ := List.exists_of_findSome?_eq_some stepped
  obtain ⟨reached, applied, same⟩ := Option.map_eq_some_iff.mp made
  obtain ⟨rfl, rfl⟩ := Prod.mk.inj same
  obtain ⟨pair, captured, rfl⟩ := Option.map_eq_some_iff.mp applied
  exact ⟨entry.1, pair.2, List.mem_zipIdx_iff_getElem?.mp inside, captured⟩

/-- A walk that has rewritten a name went by rules that replay. -/
theorem walk_replays {logical current : Iri} {hops : Nat} {trail : List Text} {applied : List Nat}
    {hop : AliasHop} (walked : table.walkFrom logical hops current trail applied = .aliased hop) :
    ∃ rest turns, hop.logical = logical ∧ hop.rules = applied ++ rest ∧
      table.Replays current rest turns hop.canonical := by
  induction hops generalizing current trail applied with
  | zero => cases walked
  | succ hops ih =>
    rw [walkFrom] at walked
    cases stepped : table.step current with
    | none =>
      rw [stepped] at walked
      dsimp only at walked
      split at walked
      · cases walked
      · cases walked
        exact ⟨[], [], rfl, (List.append_nil _).symm, .nil _⟩
    | some taken =>
      obtain ⟨index, next⟩ := taken
      rw [stepped] at walked
      dsimp only at walked
      cases read : Iri.parse next with
      | none =>
        rw [read] at walked
        cases walked
      | some parsed =>
        obtain rfl := parse_eq_self read
        rw [read] at walked
        dsimp only at walked
        split at walked
        · cases walked
        · obtain ⟨rest, turns, same, rules, replays⟩ := ih walked
          obtain ⟨rule, captures, listed, made⟩ := step_listed stepped
          refine ⟨index :: rest, ⟨rule, current, captures⟩ :: turns, same, ?_, ?_⟩
          · rw [rules, List.append_assoc]
            rfl
          · exact .cons index rule current parsed captures rest turns _ listed made read replays

/-- A walk that arrives is a replay of the rules it names, in order. -/
theorem canonicalize_replays {name : Iri} {hop : AliasHop}
    (walked : table.canonicalize name = .aliased hop) :
    hop.logical = name ∧ ∃ turns, table.Replays name hop.rules turns hop.canonical := by
  unfold canonicalize at walked
  split at walked
  · cases walked
  · obtain ⟨rest, turns, same, rules, replays⟩ := walk_replays walked
    rw [List.nil_append] at rules
    exact ⟨same, turns, rules ▸ replays⟩

end AliasTable

end Replaying

/-- The names that some rules fix, in order. -/
def fixedBy (turns : List Turn) : List Text := (turns.flatMap Turn.fixes).map FixedArgument.name

/-- The first default of some declared inputs for a name. -/
def defaultOf (inputs : List ArgSpec) (name : Text) : Option Text :=
  inputs.findSome? fun input => if input.name = name then input.default else none

/-- Bindings fix the names they bind. -/
theorem fixed_names_fixed (holder : Iri) (bindings : List Binding) :
    fixedNames (bindings.map (.fixed holder)) = bindings.map Binding.name := by
  induction bindings with
  | nil => rfl
  | cons binding bindings ih => exact congrArg (binding.name :: ·) ih

/-- Declared inputs fix none. -/
theorem fixed_names_declared (inputs : List ArgSpec) :
    fixedNames (inputs.map .declared) = [] := by
  rw [fixedNames, List.filterMap_map]
  exact List.filterMap_eq_nil_iff.mpr fun _ _ => rfl

/-- Declared inputs give the defaults they declare. -/
theorem first_default_declared (inputs : List ArgSpec) (name : Text) :
    firstDefault (inputs.map .declared) name = defaultOf inputs name := by
  rw [firstDefault, List.findSome?_map]
  rfl

/-- Of two lists of inputs the first that has a default gives it. -/
theorem default_of_append (inputs others : List ArgSpec) (name : Text) :
    defaultOf (inputs ++ others) name = (defaultOf inputs name <|> defaultOf others name) := by
  rw [← first_default_declared, List.map_append, first_default_append, first_default_declared,
    first_default_declared]

/-- A plain rewrite of a chain merges nothing and forwards every verb. -/
theorem Turn.of_plain {turn : Turn} (plain : turn.rule.isNamedRequest = false) :
    turn.rule.request.verb = none ∧ turn.fixes = [] ∧ turn.inputs = [] := by
  rw [AliasRule.isNamedRequest, Bool.not_eq_false', RequestPart.isEmpty, Bool.and_eq_true,
    Bool.and_eq_true, Bool.and_eq_true, Option.isNone_iff_eq_none, Option.isNone_iff_eq_none,
    List.isEmpty_iff, List.isEmpty_iff] at plain
  exact ⟨plain.1.1.2, plain.1.2, plain.2⟩

/-- What an argument given to an input breaks: its enumeration, its class, or that the view has to
see an enumerated value. -/
inductive ArgSpec.Breaks (input : ArgSpec) : ArgRef → Prop where
  | enumeration (bytes : List UInt8) (enumerated : input.isEnumerated = true)
      (outside : Text.fromUtf8Lossy bytes ∉ input.oneOf) : Breaks input (.inline bytes)
  | implausible (bytes : List UInt8) (declared : Text) (stated : input.class = some declared)
      (unlike : plausibleFor declared (Text.fromUtf8Lossy bytes) = false) :
      Breaks input (.inline bytes)
  | named (name : Iri) (enumerated : input.isEnumerated = true) : Breaks input (.reference name)
  | stored (digest : List UInt8) (enumerated : input.isEnumerated = true) :
      Breaks input (.content digest)

/-- A value that is held to an input's contract breaks nothing of it. -/
theorem ArgSpec.Breaks.refused {input : ArgSpec} {value : ArgRef} (breaks : input.Breaks value) :
    heldToContract input value ≠ .ok () := by
  cases breaks with
  | enumeration bytes enumerated outside =>
    have none_ : (input.oneOf.any fun accepted => accepted = Text.fromUtf8Lossy bytes) = false := by
      rw [List.any_eq_false]
      intro accepted inside same
      exact outside (of_decide_eq_true same ▸ inside)
    rw [heldToContract, ArgSpec.checkValue, enumerated, none_]
    nofun
  | implausible bytes declared stated unlike =>
    have violates : input.checkValue (Text.fromUtf8Lossy bytes) ≠ none := by
      unfold ArgSpec.checkValue
      split
      · exact Option.some_ne_none _
      · rw [stated]
        dsimp only
        rw [unlike]
        exact Option.some_ne_none _
    obtain ⟨violation, found⟩ := Option.ne_none_iff_exists'.mp violates
    rw [heldToContract, found]
    nofun
  | named name enumerated =>
    rw [heldToContract, enumerated]
    nofun
  | stored digest enumerated =>
    rw [heldToContract, enumerated]
    nofun

section Calls

variable [IriSyntax] [IriPath]

/-- What a rule binds an argument to, with what it captured. -/
inductive FixedValue.Binds (captures : List (Text × Text)) : FixedValue → ArgRef → Prop where
  | value (text : Text) : Binds captures (.value text) (.inline text.asBytes)
  | reference (name : Iri) : Binds captures (.reference name) (.reference name)
  | referenceTemplate (template : UriTemplate) (name : Iri)
      (filled : ∀ var ∈ template.variableNames,
        ∃ text, UriTemplate.bound captures var = some text ∧ text ≠ [])
      (expanded : template.expandEncoded captures = some name)
      (valid : Iri.parse name = some name) :
      Binds captures (.referenceTemplate template) (.reference name)
  | capture (captured text : Text) (bound : UriTemplate.bound captures captured = some text) :
      Binds captures (.capture captured) (.inline text.asBytes)

/-- A call that is issued: at the name the chain ended in, with what the caller gave, what each
rule fixed, and a first default for each name that neither gave. -/
structure OneRequest (turns : List Turn) (canonical : Iri) (request out : Request) : Prop where
  target : out.target = canonical
  verb : out.verb = request.verb
  given : ∀ name value, argNamed request.args name = some value →
    argNamed out.args name = some value
  fixed : ∀ turn ∈ turns, ∀ argument ∈ turn.fixes,
    ∃ value, argument.value.Binds turn.captures value ∧
      argNamed out.args argument.name = some value
  left : ∀ name, argNamed request.args name = none → name ∉ fixedBy turns →
    argNamed out.args name =
      (defaultOf (turns.flatMap Turn.inputs) name).map fun text => .inline text.asBytes
  kept : request.args.Sublist out.args

/-- What an input is when its own rule comes to declare it, after some turns and some inputs of its
own rule. -/
inductive DeclaredAs (request : Request) (before : List Turn) (turn : Turn) (earlier : List ArgSpec)
    (input : ArgSpec) : ArgRef → Prop where
  | given (value : ArgRef) (given : argNamed request.args input.name = some value) :
      DeclaredAs request before turn earlier input value
  | fixed (holder : Turn) (argument : FixedArgument) (value : ArgRef)
      (inside : holder ∈ before ++ [turn]) (among : argument ∈ holder.fixes)
      (same : argument.name = input.name) (binds : argument.value.Binds holder.captures value) :
      DeclaredAs request before turn earlier input value
  | default (text : Text) (ungiven : argNamed request.args input.name = none)
      (free : input.name ∉ fixedBy (before ++ [turn]))
      (first :
        defaultOf (before.flatMap Turn.inputs ++ earlier ++ [input]) input.name = some text) :
      DeclaredAs request before turn earlier input (.inline text.asBytes)

/-- What a view refuses a call for. -/
inductive Conflicts (turns : List Turn) (request : Request) : Prop where
  | given (turn : Turn) (argument : FixedArgument) (inside : turn ∈ turns)
      (among : argument ∈ turn.fixes) (given : argNamed request.args argument.name ≠ none)
  | twice (again : ¬(fixedBy turns).Nodup)
  | verb (turn : Turn) (bound : Verb) (inside : turn ∈ turns)
      (binds : turn.rule.request.verb = some bound) (other : request.verb ≠ bound)
      (asked : request.verb ≠ .exists)
  | broken (before after : List Turn) (turn : Turn) (earlier later : List ArgSpec)
      (input : ArgSpec) (value : ArgRef) (among : before ++ turn :: after = turns)
      (declares : earlier ++ input :: later = turn.inputs)
      (stands : DeclaredAs request before turn earlier input value) (breaks : input.Breaks value)

/-- The part a rule of a chain is. -/
def Turn.part (turn : Turn) : BoundPart := turn.rule.boundPart turn.name turn.captures

def Turn.entries (turn : Turn) : List CallEntry := turn.part.entries

theorem Turn.part_names (turn : Turn) :
    turn.part.fixed.map Binding.name = turn.fixes.map FixedArgument.name :=
  List.map_map

theorem Turn.fixed_names (turn : Turn) :
    fixedNames turn.entries = turn.fixes.map FixedArgument.name := by
  rw [entries, BoundPart.entries, fixed_names_append, fixed_names_fixed, fixed_names_declared,
    List.append_nil, part_names]

/-- A run of turns fixes what each turn's rule fixes. -/
theorem fixed_names_turns (turns : List Turn) :
    fixedNames (turns.flatMap Turn.entries) = fixedBy turns := by
  induction turns with
  | nil => rfl
  | cons turn turns ih =>
    rw [List.flatMap_cons, fixed_names_append, ih, turn.fixed_names, fixedBy, fixedBy,
      List.flatMap_cons, List.map_append]

theorem Turn.first_default (turn : Turn) (name : Text) :
    firstDefault turn.entries name = defaultOf turn.inputs name := by
  have fixed : firstDefault (turn.part.fixed.map (.fixed turn.part.name)) name = none := by
    rw [firstDefault, List.findSome?_map]
    exact List.findSome?_eq_none_iff.mpr fun _ _ => rfl
  rw [entries, BoundPart.entries, first_default_append, fixed, first_default_declared]
  rfl

/-- The defaults of a run of turns are those its rules declare, the first first. -/
theorem first_default_turns (turns : List Turn) (name : Text) :
    firstDefault (turns.flatMap Turn.entries) name =
      defaultOf (turns.flatMap Turn.inputs) name := by
  induction turns with
  | nil => rfl
  | cons turn turns ih =>
    rw [List.flatMap_cons, first_default_append, ih, turn.first_default, List.flatMap_cons,
      default_of_append]

/-- What a template and its captures are where a name is answered. -/
theorem reference_answered {template : UriTemplate} {captures : List (Text × Text)} {name : Iri}
    (answered : referenceFromTemplate template captures = .ok name) :
    (∀ var ∈ template.variableNames, ∃ capture,
        UriTemplate.bound captures var = some capture ∧ capture ≠ []) ∧
      checkSegments captures ((IriPath.path template.source).splitOn '/') = .ok () ∧
      template.expandEncoded captures = some name ∧ IriSyntax.isIri name = true := by
  unfold referenceFromTemplate at answered
  split at answered
  · cases answered
  · rename_i given
    obtain ⟨_, passed, expands⟩ := Except.of_bind answered
    split at expands
    · cases expands
    · rename_i expanded expansion
      split at expands
      · rename_i parsed read
        obtain rfl := Except.ok.inj expands
        obtain rfl := AliasTable.parse_eq_self read
        refine ⟨?_, passed, expansion, ?_⟩
        · intro var among
          have some_ := List.find?_eq_none.mp given var among
          cases bound : UriTemplate.bound captures var with
          | none =>
            rw [bound] at some_
            exact absurd rfl some_
          | some capture =>
            rw [bound] at some_
            exact ⟨capture, rfl, fun empty => some_ (by rw [empty]; rfl)⟩
        · by_contra refused
          rw [Iri.parse, if_neg refused] at read
          cases read
      · cases expands

/-- A reference made of a template is what the template binds for the captures. -/
theorem reference_of_template {template : UriTemplate} {captures : List (Text × Text)} {name : Iri}
    (made : referenceFromTemplate template captures = .ok name) :
    FixedValue.Binds captures (.referenceTemplate template) (.reference name) := by
  obtain ⟨given, _, expansion, valid⟩ := reference_answered made
  exact .referenceTemplate template name given expansion (by rw [Iri.parse, if_pos valid])

/-- What is sent for a captured value is what it binds. -/
theorem FixedValue.sent_binds {captures : List (Text × Text)} {fixed : FixedValue} {value : ArgRef}
    (captured : fixed.isCaptured captures = true) (sent : fixed.sent captures = .ok value) :
    fixed.Binds captures value := by
  cases fixed with
  | value text =>
    obtain rfl := Except.ok.inj sent
    exact .value text
  | reference name =>
    obtain rfl := Except.ok.inj sent
    exact .reference name
  | referenceTemplate template =>
    unfold FixedValue.sent at sent
    dsimp only at sent
    cases made : referenceFromTemplate template captures with
    | error detail =>
      rw [made] at sent
      cases sent
    | ok name =>
      rw [made] at sent
      obtain rfl := Except.ok.inj sent
      exact reference_of_template made
  | capture name =>
    obtain rfl := Except.ok.inj sent
    obtain ⟨text, bound⟩ := Option.isSome_iff_exists.mp captured
    rw [bound]
    exact .capture name text bound

omit [IriPath] in
/-- What a rule binds an argument to is one value, the one that is sent for it. -/
theorem FixedValue.Binds.unique {captures : List (Text × Text)} {fixed : FixedValue}
    {value other : ArgRef} (binds : fixed.Binds captures value)
    (binds' : fixed.Binds captures other) : value = other := by
  cases binds with
  | value text =>
    cases binds'
    rfl
  | reference name =>
    cases binds'
    rfl
  | referenceTemplate template name _ expanded _ =>
    cases binds' with
    | referenceTemplate _ other _ expanded' _ =>
      rw [Option.some.inj (expanded.symm.trans expanded')]
  | capture captured text bound =>
    cases binds' with
    | capture _ other bound' => rw [Option.some.inj (bound.symm.trans bound')]

/-- A plain rule adds no entry to the call. -/
theorem Turn.entries_of_plain {turn : Turn} (plain : turn.rule.isNamedRequest = false) :
    turn.entries = [] := by
  obtain ⟨_, fixes, inputs⟩ := Turn.of_plain plain
  rw [entries, BoundPart.entries, part, AliasRule.boundPart]
  rw [Turn.fixes] at fixes
  rw [Turn.inputs] at inputs
  rw [fixes, inputs]
  rfl

/-- What a replay made of some turns: the name they end in, and a part of each named request with
all it fixes captured. -/
structure Viewed (parts : List BoundPart) (turns : List Turn) (last : Iri) (view : ViewEndpoint) :
    Prop where
  target : view.target = last
  entries : view.parts.flatMap BoundPart.entries =
    parts.flatMap BoundPart.entries ++ turns.flatMap Turn.entries
  earlier : ∀ part ∈ parts, part ∈ view.parts
  named : ∀ turn ∈ turns, turn.rule.isNamedRequest = true →
    turn.part ∈ view.parts ∧ turn.rule.capturesFixes turn.captures = true

/-- The view made of a replay ends at the replay's last name, and its parts are those of its
turns. -/
theorem AliasTable.replay_viewed {table : AliasTable} {name last : Iri} {rules : List Nat}
    {turns : List Turn} (replays : table.Replays name rules turns last) {place : Nat}
    {parts : List BoundPart} {forward : Forward} {view : ViewEndpoint}
    (replayed : table.replay place rules name parts forward = some view) :
    Viewed parts turns last view := by
  induction replays generalizing place parts forward with
  | nil name =>
    obtain rfl := Option.some.inj replayed
    exact ⟨rfl, (List.append_nil _).symm, fun _ inside => inside, nofun⟩
  | cons index rule name next captures rest turns last listed applied valid later ih =>
    rw [replay, listed] at replayed
    simp only [applied, valid, bind, Option.bind] at replayed
    cases named : rule.isNamedRequest with
    | true =>
      rw [named, if_pos rfl] at replayed
      split at replayed
      · rename_i captured
        obtain ⟨target, entries, earlier, others⟩ := ih replayed
        have own := earlier _ (List.mem_append_right _ (List.mem_singleton_self _))
        refine ⟨target, ?_, fun part inside => earlier part (List.mem_append_left _ inside), ?_⟩
        · rw [entries, List.flatMap_append, List.append_assoc, List.flatMap_cons, List.flatMap_nil,
            List.append_nil, List.flatMap_cons]
          rfl
        · exact List.forall_mem_cons.mpr ⟨fun _ => ⟨own, captured⟩, others⟩
      · cases replayed
    | false =>
      rw [named] at replayed
      obtain ⟨target, entries, earlier, others⟩ := ih replayed
      refine ⟨target, ?_, earlier, List.forall_mem_cons.mpr ⟨fun bound => ?_, others⟩⟩
      · rw [entries, List.flatMap_cons, Turn.entries_of_plain named, List.nil_append]
      · rw [named] at bound
        cases bound

/-- A call that is issued went through a view of the chain's turns, and each of these forwards its
verb and merged its entries. -/
theorem forward_through_ok {table : AliasTable} {hop : AliasHop} {request out : Request}
    {turns : List Turn} (replays : table.Replays request.target hop.rules turns hop.canonical)
    (issued : table.forwardThrough hop request = .ok out) :
    out.target = hop.canonical ∧ out.verb = request.verb ∧
      (∀ turn ∈ turns, turn.part.checkVerb request.verb = .ok () ∧
        turn.rule.capturesFixes turn.captures = true) ∧
      (turns.flatMap Turn.entries).foldlM CallEntry.merge request.args = .ok out.args := by
  unfold AliasTable.forwardThrough at issued
  cases made : table.view request.target hop with
  | none =>
    rw [made] at issued
    cases issued
  | some view =>
    rw [made] at issued
    obtain ⟨target, verb, forwards, merged⟩ := ViewEndpoint.forwarded_ok issued
    unfold AliasTable.view at made
    obtain ⟨index, _, made⟩ := Option.bind_eq_some_iff.mp made
    obtain ⟨first, _, made⟩ := Option.bind_eq_some_iff.mp made
    obtain ⟨replayed, run, made⟩ := Option.bind_eq_some_iff.mp made
    split at made
    · obtain rfl := Option.some.inj made
      have viewed := AliasTable.replay_viewed replays run
      rw [viewed.target] at target
      rw [viewed.entries] at merged
      refine ⟨target, verb, fun turn inside => ?_, merged⟩
      cases named : turn.rule.isNamedRequest with
      | true =>
        obtain ⟨own, captured⟩ := viewed.named turn inside named
        exact ⟨forwards _ own, captured⟩
      | false =>
        obtain ⟨free, fixes, _⟩ := Turn.of_plain named
        constructor
        · rw [BoundPart.checkVerb, Turn.part, AliasRule.boundPart, free]
        · rw [AliasRule.capturesFixes]
          rw [Turn.fixes] at fixes
          rw [fixes]
          rfl
    · cases made

/-- Each argument a turn fixes is an entry of its part. -/
theorem Turn.fixed_entry {turn : Turn} {argument : FixedArgument} (among : argument ∈ turn.fixes) :
    CallEntry.fixed turn.name ⟨argument.name, argument.value.sent turn.captures,
      argument.value.shown turn.captures⟩ ∈ turn.part.fixed.map (.fixed turn.part.name) :=
  List.mem_map.mpr ⟨_, List.mem_map.mpr ⟨argument, among, rfl⟩, rfl⟩

/-- What a merge made of an argument that a turn fixes. -/
theorem Merging.binds {start args : List (Text × ArgRef)} {past : List CallEntry} {turn : Turn}
    {argument : FixedArgument} (merging : Merging start args past)
    (captured : turn.rule.capturesFixes turn.captures = true) (among : argument ∈ turn.fixes)
    (inside : ∀ entry ∈ turn.part.fixed.map (.fixed turn.part.name), entry ∈ past) :
    ∃ value, argument.value.Binds turn.captures value ∧
      argNamed args argument.name = some value := by
  obtain ⟨value, sent, there⟩ := merging.fixed _ _ (inside _ (Turn.fixed_entry among))
  exact ⟨value, FixedValue.sent_binds (List.all_eq_true.mp captured argument among) sent, there⟩

/-- Merging every turn's entries into a request makes one request of the last name. -/
theorem Merging.one_request {turns : List Turn} {canonical : Iri} {request out : Request}
    (merging : Merging request.args out.args (turns.flatMap Turn.entries))
    (target : out.target = canonical) (verb : out.verb = request.verb)
    (captured : ∀ turn ∈ turns, turn.rule.capturesFixes turn.captures = true) :
    OneRequest turns canonical request out := by
  refine ⟨target, verb, merging.given, ?_, ?_, merging.kept⟩
  · intro turn inside argument among
    refine merging.binds (captured turn inside) among fun entry own => ?_
    exact List.mem_flatMap.mpr ⟨turn, inside, List.mem_append_left _ own⟩
  · intro name ungiven free
    rw [← fixed_names_turns] at free
    rw [merging.left name ungiven free, first_default_turns]

/-- What an input is when its rule comes to declare it, the merge finds under its name. -/
theorem DeclaredAs.found {request : Request} {before : List Turn} {turn : Turn}
    {earlier : List ArgSpec} {input : ArgSpec} {value : ArgRef} {args : List (Text × ArgRef)}
    (stands : DeclaredAs request before turn earlier input value)
    (captured : ∀ other ∈ before ++ [turn], other.rule.capturesFixes other.captures = true)
    (merging : Merging request.args args (before.flatMap Turn.entries ++
      turn.part.fixed.map (.fixed turn.part.name) ++ (earlier ++ [input]).map .declared)) :
    argNamed args input.name = some value := by
  cases stands with
  | given _ given => exact merging.given _ _ given
  | fixed holder argument _ inside among same binds =>
    have known := captured holder inside
    obtain ⟨found, binds', there⟩ := merging.binds known among fun entry own => by
      rw [List.mem_append, List.mem_append]
      rcases List.mem_append.mp inside with earlier | last
      · exact .inl (.inl (List.mem_flatMap.mpr ⟨holder, earlier, List.mem_append_left _ own⟩))
      · rw [List.mem_singleton] at last
        exact .inl (.inr (last ▸ own))
    rw [← same, there, binds'.unique binds]
  | default text ungiven free first =>
    have names : fixedNames (before.flatMap Turn.entries ++
        turn.part.fixed.map (.fixed turn.part.name) ++ (earlier ++ [input]).map .declared) =
          fixedBy (before ++ [turn]) := by
      have last : fixedBy (before ++ [turn]) =
          fixedBy before ++ turn.fixes.map FixedArgument.name := by
        rw [fixedBy, fixedBy, List.flatMap_append, List.map_append, List.flatMap_singleton]
      rw [fixed_names_append, fixed_names_append, fixed_names_turns, fixed_names_fixed,
        fixed_names_declared, List.append_nil, last, Turn.part_names]
    have firsts : firstDefault (before.flatMap Turn.entries ++
        turn.part.fixed.map (.fixed turn.part.name) ++ (earlier ++ [input]).map .declared)
          input.name = some text := by
      have none_ :
          firstDefault (turn.part.fixed.map (.fixed turn.part.name)) input.name = none := by
        rw [firstDefault, List.findSome?_map]
        exact List.findSome?_eq_none_iff.mpr fun _ _ => rfl
      rw [List.append_assoc, first_default_append, first_default_append, none_,
        first_default_turns, first_default_declared]
      rw [List.append_assoc, default_of_append] at first
      exact first
    rw [merging.left input.name ungiven (names ▸ free), firsts]
    rfl

/-- A call that conflicts with a chain is not issued through it. -/
theorem Conflicts.not_merged {turns : List Turn} {request : Request} {args : List (Text × ArgRef)}
    (conflicts : Conflicts turns request)
    (forwards : ∀ turn ∈ turns, turn.part.checkVerb request.verb = .ok () ∧
      turn.rule.capturesFixes turn.captures = true)
    (merged : (turns.flatMap Turn.entries).foldlM CallEntry.merge request.args = .ok args) :
    False := by
  have merging := (Merging.nil request.args).run merged
  rw [List.nil_append] at merging
  cases conflicts with
  | given turn argument inside among given =>
    refine given (merging.ungiven argument.name ?_)
    rw [fixed_names_turns, fixedBy]
    exact List.mem_map.mpr ⟨argument, List.mem_flatMap.mpr ⟨turn, inside, among⟩, rfl⟩
  | twice again => exact again (fixed_names_turns turns ▸ merging.once)
  | verb turn bound inside binds other asked =>
    have checked := (forwards turn inside).1
    rw [BoundPart.checkVerb, Turn.part, AliasRule.boundPart, binds] at checked
    dsimp only at checked
    rw [if_pos ⟨other, asked⟩] at checked
    cases checked
  | broken before after turn earlier later input value among declares stands breaks =>
    subst among
    have entries : (before ++ turn :: after).flatMap Turn.entries =
        (before.flatMap Turn.entries ++ turn.part.fixed.map (.fixed turn.part.name) ++
          earlier.map .declared) ++ [.declared input] ++
            (later.map .declared ++ after.flatMap Turn.entries) := by
      have own : turn.part.inputs = earlier ++ input :: later := declares.symm
      rw [List.flatMap_append, List.flatMap_cons, Turn.entries, BoundPart.entries, own,
        List.map_append, List.map_cons]
      simp only [List.append_assoc, List.cons_append, List.nil_append]
    rw [entries, List.foldlM_append] at merged
    obtain ⟨next, first, _⟩ := Except.of_bind merged
    have whole := (Merging.nil request.args).run first
    rw [List.foldlM_append] at first
    obtain ⟨between, _, declared⟩ := Except.of_bind first
    rw [List.foldlM_cons] at declared
    obtain ⟨last, held, same⟩ := Except.of_bind declared
    have done : BoundPart.declare between input = .ok next := Except.ok.inj same ▸ held
    have found : argNamed next input.name = some value := by
      refine stands.found (fun other inside => (forwards other ?_).2) ?_
      · rcases List.mem_append.mp inside with front | only
        · exact List.mem_append_left _ front
        · exact List.mem_append_right _ (List.mem_singleton.mp only ▸ List.mem_cons_self)
      · rw [List.nil_append] at whole
        rw [List.map_append, ← List.append_assoc]
        exact whole
    exact breaks.refused ((declare_ok done).2 value found)

/-- A call through a chain of rules is refused, or it is one request at the name the chain ended in
with the caller's arguments, each rule's own fixed arguments and the defaults left out; and a call
that gives a fixed argument, that two rules fix one argument of, that is of a verb a rule does not
forward, or of which an input breaks its contract when its rule declares it, is refused. -/
theorem named_request_is_one_request (table : AliasTable) (hop : AliasHop) (request : Request)
    (walked : table.canonicalize request.target = .aliased hop) :
    ∃ turns, table.Replays request.target hop.rules turns hop.canonical ∧
      (∀ out, table.forwardThrough hop request = .ok out →
        OneRequest turns hop.canonical request out) ∧
      (Conflicts turns request →
        ∃ refusal, table.forwardThrough hop request = .error refusal) := by
  obtain ⟨_, turns, replays⟩ := AliasTable.canonicalize_replays walked
  refine ⟨turns, replays, ?_, ?_⟩
  · intro out issued
    obtain ⟨target, verb, forwards, merged⟩ := forward_through_ok replays issued
    have merging := (Merging.nil request.args).run merged
    exact merging.one_request target verb fun turn inside => (forwards turn inside).2
  · intro conflicts
    cases issued : table.forwardThrough hop request with
    | error refusal => exact ⟨refusal, rfl⟩
    | ok out =>
      obtain ⟨_, _, forwards, merged⟩ := forward_through_ok replays issued
      exact (conflicts.not_merged forwards merged).elim

end Calls

namespace NamedRequestExample

local instance nameIri : IriSyntax := ⟨fun _ => true, fun _ => []⟩

local instance namePath : IriPath := ⟨fun text => text⟩

def outer : Iri := "urn:o".toList

def inner : Iri := "urn:i".toList

def target : Iri := "urn:t".toList

/-- What the outer name declares: one value is accepted, and none is its default. -/
def mode : ArgSpec := { name := "mode".toList, oneOf := ["a".toList] }

def integer : Text := "http://www.w3.org/2001/XMLSchema#integer".toList

/-- What the inner name declares. -/
def limit : ArgSpec := { name := "limit".toList, «class» := some integer }

/-- The outer name forwards to the inner, which fixes what the outer declares. -/
def table : AliasTable := .ofRules
  [⟨.exact, outer, inner, .root, ⟨none, none, none, [], [mode]⟩, fun _ => rfl⟩,
    ⟨.exact, inner, target, .root,
      ⟨none, none, none, [⟨mode.name, .value "b".toList⟩], [limit]⟩, fun _ => rfl⟩]

def hop : AliasHop := ⟨outer, target, [0, 1]⟩

def elsewhere : Iri := "urn:m".toList

/-- A call that gives the class's input by reference. -/
def call : Request := ⟨.source, outer, [(limit.name, .reference elsewhere)]⟩

def issued : Request :=
  ⟨.source, target,
    [(limit.name, .reference elsewhere), (mode.name, .inline (Text.asBytes "b".toList))]⟩

/-- The chain answers for one call. -/
theorem call_is_one_request :
    ∃ turns, table.Replays outer hop.rules turns hop.canonical ∧
      (∀ out, table.forwardThrough hop call = .ok out → OneRequest turns hop.canonical call out) ∧
      (Conflicts turns call → ∃ refusal, table.forwardThrough hop call = .error refusal) :=
  named_request_is_one_request table hop call (by decide)

/-- The call is forwarded with a reference for an input of a class that the reference's own text
is not of, and with a value for the outer input that is none of its enumeration. -/
theorem unheld_values_forwarded :
    table.canonicalize call.target = .aliased hop ∧
      table.forwardThrough hop call = .ok issued ∧
      (limit.class = some integer ∧ plausibleFor integer elsewhere = false ∧
        argNamed issued.args limit.name = some (.reference elsewhere)) ∧
      mode.isEnumerated = true ∧ "b".toList ∉ mode.oneOf ∧
        argNamed issued.args mode.name = some (.inline (Text.asBytes "b".toList)) := by
  refine ⟨by decide, by rfl, ⟨rfl, ?_, by decide⟩, by decide, by decide, by decide⟩
  rfl

end NamedRequestExample

end Ikigai
