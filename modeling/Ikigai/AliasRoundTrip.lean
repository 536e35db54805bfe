import Ikigai.AliasText
import Ikigai.Fallible

/-!
# What the text form of an alias table reads back

Every rule the reader accepts has names that are single fields: not empty, no white space,
no `#`. A table whose rules are all of that kind reads back as it was written, since its
lines come in precedence order and each is inserted where it stood.
-/

namespace Ikigai

namespace Text

/-- What the reader can give back as one field. -/
def IsField (text : Text) : Prop := text ≠ [] ∧ ∀ c ∈ text, c ≠ '#' ∧ isWhitespace c = false

/-- Trimming keeps some of the characters, and brings none. -/
theorem trim_subset (text : Text) (c : Char) (inside : c ∈ trim text) : c ∈ text := by
  unfold trim at inside
  have suffix : c ∈ text.dropWhile isWhitespace :=
    (List.rdropWhile_prefix isWhitespace _).subset inside
  exact (List.dropWhile_suffix isWhitespace).subset suffix

/-- The words of a line's content are fields. -/
theorem words_are_fields (raw word : Text)
    (inside : word ∈ (AliasTable.lineContent raw).splitWhitespace) : word.IsField := by
  simp only [splitWhitespace, List.mem_filter, Bool.not_eq_true', List.isEmpty_eq_false_iff]
    at inside
  obtain ⟨piece, present⟩ := inside
  refine ⟨present, fun c inWord => ?_⟩
  obtain ⟨plain, inContent⟩ := split_pieces isWhitespace _ word piece c inWord
  have inComment : c ∈ raw.takeWhile fun c => decide (c ≠ '#') := trim_subset _ c inContent
  exact ⟨by simpa using List.mem_takeWhile_imp inComment, plain⟩

/-- A field before a gap is split off it. -/
theorem split_whitespace_field (word rest : Text) (gap : Char) (field : word.IsField)
    (space : isWhitespace gap = true) :
    splitWhitespace (word ++ gap :: rest) = word :: splitWhitespace rest := by
  unfold splitWhitespace
  rw [List.splitOnP_append_cons_of_forall_mem (fun c inside => (field.2 c inside).2) gap space,
    List.filter_cons_of_pos (by simpa using field.1)]

/-- A field alone is the only one. -/
theorem split_whitespace_last (word : Text) (field : word.IsField) :
    splitWhitespace word = [word] := by
  unfold splitWhitespace
  rw [List.splitOnP_eq_singleton fun c inside => (field.2 c inside).2,
    List.filter_cons_of_pos (by simpa using field.1), List.filter_nil]

/-- Lines that hold no newline and end in no carriage return read back. -/
theorem lines_of_ended (texts : List Text)
    (plain : ∀ line ∈ texts, '\n' ∉ line ∧ line.getLast? ≠ some '\r') :
    lines (texts.flatMap fun line => line ++ ['\n']) = texts := by
  have pieces : (texts.flatMap fun line => line ++ ['\n']).splitOnP (fun c => decide (c = '\n')) =
      texts ++ [[]] := by
    induction texts with
    | nil => rfl
    | cons line rest ih =>
      have here : ∀ c ∈ line, decide (c = '\n') = false := fun c inside =>
        decide_eq_false fun same => (plain line List.mem_cons_self).1 (same ▸ inside)
      rw [List.flatMap_cons, List.append_assoc, List.singleton_append,
        List.splitOnP_append_cons_of_forall_mem here '\n' (by decide),
        ih fun other inside => plain other (List.mem_cons_of_mem line inside), List.cons_append]
  have kept : (texts.map fun line => (stripSuffix line '\r').getD line) = texts := by
    rw [List.map_congr_left (g := id), List.map_id]
    intro line inside
    rw [stripSuffix, if_neg (plain line inside).2]
    rfl
  simp only [lines, pieces, List.dropLast_concat, List.getLast?_concat, kept]
  rfl

/-- A line with no comment and no space at either end is all content. -/
theorem line_content_of_plain (line : Text) (uncommented : '#' ∉ line)
    (head : ∀ c, line.head? = some c → isWhitespace c = false)
    (last : ∀ c, line.getLast? = some c → isWhitespace c = false) :
    AliasTable.lineContent line = line := by
  have whole : (line.takeWhile fun c => decide (c ≠ '#')) = line := by
    rw [List.takeWhile_eq_self_iff]
    intro c inside
    exact decide_eq_true fun same => uncommented (same ▸ inside)
  have front : line.dropWhile isWhitespace = line := by
    cases line with
    | nil => rfl
    | cons c rest => rw [List.dropWhile_cons_of_neg (by simpa using head c rfl)]
  have back : line.rdropWhile isWhitespace = line := by
    rw [List.rdropWhile_eq_self_iff]
    intro present
    simpa using last _ (List.getLast?_eq_some_getLast present)
  rw [AliasTable.lineContent, whole, trim, front, back]

/-- A decimal number in a machine word reads back. -/
theorem parse_word_of_digits (value : Nat) (fits : value ≤ wordMax) :
    parseWord (Nat.toDigits 10 value) = some value := by
  have digits : ∀ c ∈ Nat.toDigits 10 value, c.isDigit = true := fun c inside =>
    Nat.isDigit_of_mem_toDigits (by decide) (by decide) inside
  have unsigned : stripPrefix (Nat.toDigits 10 value) ['+'] = none := by
    by_contra signed
    obtain ⟨rest, stripped⟩ := Option.ne_none_iff_exists'.mp signed
    rw [strip_prefix_eq_some] at stripped
    have plus : '+' ∈ Nat.toDigits 10 value := by simp [stripped]
    exact absurd (digits '+' plus) (by decide)
  have all : (Nat.toDigits 10 value).all Char.isDigit = true := List.all_eq_true.mpr digits
  have present : (Nat.toDigits 10 value).isEmpty = false := by simp
  simp [parseWord, unsigned, all, fits]

/-- Words with one space between. -/
def spaced : List Text → Text
  | [] => []
  | [word] => word
  | word :: rest => word ++ ' ' :: spaced rest

/-- One word has no space about it. -/
theorem spaced_one (word : Text) : spaced [word] = word := rfl

/-- More than one word is the first, a space and the others. -/
theorem spaced_cons (word next : Text) (rest : List Text) :
    spaced (word :: next :: rest) = word ++ ' ' :: spaced (next :: rest) := rfl

/-- What holds of a space and in every word holds in the words spaced. -/
theorem mem_spaced (words : List Text) (c : Char) (inside : c ∈ spaced words) :
    c = ' ' ∨ ∃ word ∈ words, c ∈ word := by
  induction words with
  | nil => cases inside
  | cons word rest ih =>
    cases rest with
    | nil => exact Or.inr ⟨word, List.mem_cons_self, inside⟩
    | cons next after =>
      simp only [spaced_cons, List.mem_append, List.mem_cons] at inside
      rcases inside with here | space | later
      · exact Or.inr ⟨word, List.mem_cons_self, here⟩
      · exact Or.inl space
      · rcases ih later with space | ⟨other, member, found⟩
        · exact Or.inl space
        · exact Or.inr ⟨other, List.mem_cons_of_mem word member, found⟩

/-- Fields spaced end as a field does. -/
theorem last_of_spaced (words : List Text) (fields : ∀ word ∈ words, IsField word) (c : Char)
    (last : (spaced words).getLast? = some c) : isWhitespace c = false := by
  induction words with
  | nil => cases last
  | cons word rest ih =>
    cases rest with
    | nil => exact ((fields word List.mem_cons_self).2 c (List.mem_of_getLast? last)).2
    | cons next after =>
      refine ih (fun other inside => fields other (List.mem_cons_of_mem word inside)) ?_
      have present : spaced (next :: after) ≠ [] := by
        have field := (fields next (by simp)).1
        cases after with
        | nil => exact field
        | cons third others => simp [spaced_cons]
      rw [spaced_cons, ← List.singleton_append, ← List.append_assoc] at last
      rwa [List.getLast?_append_of_ne_nil _ present] at last

/-- Fields spaced open as the first of them does. -/
theorem head_of_spaced (words : List Text) (fields : ∀ word ∈ words, IsField word) (c : Char)
    (head : (spaced words).head? = some c) : isWhitespace c = false := by
  cases words with
  | nil => cases head
  | cons word rest =>
    obtain ⟨present, plain⟩ := fields word List.mem_cons_self
    have first : word.head? = some c := by
      cases rest with
      | nil => exact head
      | cons next after =>
        have opens : (word ++ ' ' :: spaced (next :: after)).head? = some c := head
        rwa [List.head?_append_of_ne_nil _ present] at opens
    exact (plain c (List.mem_of_mem_head? first)).2

/-- A line of fields is all content, its words are the fields, and it is one line. -/
theorem spaced_reads (words : List Text) (fields : ∀ word ∈ words, IsField word) :
    AliasTable.lineContent (spaced words) = spaced words ∧
      splitWhitespace (spaced words) = words ∧
      '\n' ∉ spaced words ∧ (spaced words).getLast? ≠ some '\r' := by
  refine ⟨?_, ?_, ?_, ?_⟩
  · refine line_content_of_plain _ ?_ (head_of_spaced words fields) (last_of_spaced words fields)
    intro inside
    rcases mem_spaced words '#' inside with space | ⟨word, member, found⟩
    · cases space
    · exact ((fields word member).2 '#' found).1 rfl
  · induction words with
    | nil => rfl
    | cons word rest ih =>
      have field := fields word List.mem_cons_self
      cases rest with
      | nil => exact split_whitespace_last word field
      | cons next after =>
        rw [spaced_cons, split_whitespace_field word _ ' ' field (by decide),
          ih fun other inside => fields other (List.mem_cons_of_mem word inside)]
  · intro inside
    rcases mem_spaced words '\n' inside with space | ⟨word, member, found⟩
    · cases space
    · exact absurd ((fields word member).2 '\n' found).2 (by decide)
  · intro last
    exact absurd (last_of_spaced words fields '\r' last) (by decide)

end Text

namespace AliasRule

/-- Of two rules one goes before the other, or they are alike in their order. -/
theorem precedes_total (first second : AliasRule) :
    first.Precedes second ∨ second.Precedes first := by
  unfold Precedes
  rcases Nat.lt_trichotomy first.source.byteLen second.source.byteLen with less | same | more
  · exact Or.inr (Or.inl less)
  · rcases lt_trichotomy first.matchKind.keyword second.matchKind.keyword with below | equal | above
    · exact Or.inl (Or.inr ⟨same.symm, Or.inl below⟩)
    · rcases le_total first.source second.source with low | high
      · exact Or.inl (Or.inr ⟨same.symm, Or.inr ⟨equal, low⟩⟩)
      · exact Or.inr (Or.inr ⟨same, Or.inr ⟨equal.symm, high⟩⟩)
    · exact Or.inr (Or.inr ⟨same, Or.inl above⟩)
  · exact Or.inl (Or.inl more)

/-- The order of rules is transitive. -/
theorem precedes_trans (first second third : AliasRule) (ahead : first.Precedes second)
    (after : second.Precedes third) : first.Precedes third := by
  unfold Precedes at *
  rcases ahead with longer | ⟨same, below | ⟨equal, low⟩⟩
  · rcases after with longer' | ⟨same', _⟩
    · exact Or.inl (by omega)
    · exact Or.inl (by omega)
  · rcases after with longer' | ⟨same', below' | ⟨equal', _⟩⟩
    · exact Or.inl (by omega)
    · exact Or.inr ⟨by omega, Or.inl (lt_trans below below')⟩
    · exact Or.inr ⟨by omega, Or.inl (equal' ▸ below)⟩
  · rcases after with longer' | ⟨same', below' | ⟨equal', low'⟩⟩
    · exact Or.inl (by omega)
    · exact Or.inr ⟨by omega, Or.inl (equal.symm ▸ below')⟩
    · exact Or.inr ⟨by omega, Or.inr ⟨equal.trans equal', le_trans low low'⟩⟩

instance : Std.Total Precedes := ⟨precedes_total⟩

instance : IsTrans AliasRule Precedes := ⟨precedes_trans⟩

end AliasRule

namespace AliasTable

/-- A table as the builders leave it. -/
inductive Built : AliasTable → Prop where
  | new : Built (ofRules [])
  | insert (table : AliasTable) (rule : AliasRule) (built : table.Built) : Built (table.insert rule)
  | withMaxHops (table : AliasTable) (hops : Nat) (built : table.Built) :
      Built (table.withMaxHops hops)

/-- A built table is in precedence order. -/
theorem built_sorted (table : AliasTable) (built : table.Built) :
    table.rules.Pairwise AliasRule.Precedes := by
  induction built with
  | new => exact List.Pairwise.nil
  | insert table rule built ih => exact List.pairwise_insertionSort _ _
  | withMaxHops table hops built ih => exact ih

/-- A rule that belongs last is put last. -/
theorem insert_last (table : AliasTable) (rule : AliasRule)
    (sorted : (table.rules ++ [rule]).Pairwise AliasRule.Precedes) :
    (table.insert rule).rules = table.rules ++ [rule] :=
  sorted.insertionSort_eq

end AliasTable

namespace DeclaredRule

/-- A template that is accepted is an exact rule, of a template. -/
theorem logical_template_marked (rule : DeclaredRule) (template : Option UriTemplate)
    (marked : rule.template = true) (read : rule.logicalTemplate = .ok template) :
    rule.kind = .exact ∧ template.isSome = true := by
  unfold logicalTemplate at read
  rw [if_pos marked] at read
  split at read
  · cases read
  · rename_i exact
    obtain ⟨found, parsed, read⟩ := Except.of_bind read
    split at read
    · cases read
    · cases read
      exact ⟨not_not.mp exact, rfl⟩

variable [IriSyntax]

/-- What a named request that is read says. -/
theorem request_part_of_named (rule : DeclaredRule) (part : RequestPart)
    (named : rule.isNamed = true) (read : rule.requestPart = .ok part) :
    rule.resolveAt = .root ∧ rule.logicalTemplate = .ok part.template ∧ part.verb = rule.verb ∧
      part.fixes = rule.fixes.insertionSort (fun first second => first.name ≤ second.name) ∧
      part.inputs = rule.inputs.insertionSort (fun first second => first.name ≤ second.name) := by
  unfold requestPart at read
  rw [named, Bool.not_true, if_neg Bool.false_ne_true] at read
  split at read
  · cases read
  · rename_i rooted
    have root : rule.resolveAt = .root := not_not.mp rooted
    obtain ⟨template, logical, read⟩ := Except.of_bind read
    obtain ⟨target, canonical, read⟩ := Except.of_bind read
    split at read
    · cases read
    · obtain ⟨names, fixed, read⟩ := Except.of_bind read
      obtain ⟨⟨⟩, stated, read⟩ := Except.of_bind read
      cases read
      exact ⟨root, logical, rfl, rfl, rfl⟩

/-- A rule that is read keeps what was declared. -/
theorem to_rule_states (declared : DeclaredRule) (rule : AliasRule)
    (accepted : declared.toRule = .ok rule) :
    rule.kind = declared.kind ∧ rule.source = declared.source ∧ rule.target = declared.target ∧
      rule.resolveAt = declared.resolveAt ∧ declared.requestPart = .ok rule.request := by
  unfold toRule at accepted
  split at accepted
  · rename_i part read
    cases accepted
    exact ⟨rfl, rfl, rfl, rfl, read⟩
  · cases accepted

end DeclaredRule

namespace AliasRule

/-- A rule the text form is for: a plain rewrite between IRIs, or a template rule without
arguments. -/
inductive Written [IriSyntax] : AliasRule → Prop where
  | plain (kind : RuleKind) (source target : Text) (place : ResolveAt)
      (logical : (Iri.parse source).isSome = true) (canonical : (Iri.parse target).isSome = true) :
      Written (.plain kind source target place)
  | template (declared : DeclaredRule) (rule : AliasRule) (marked : declared.template = true)
      (unfixed : declared.fixes = []) (undeclared : declared.inputs = [])
      (accepted : declared.toRule = .ok rule) : Written rule

/-- A rule whose line says it all: no bound verb, and names that are single fields. -/
structure Legible (rule : AliasRule) : Prop where
  unbound : rule.request.verb = none
  source : Text.IsField rule.source
  target : Text.IsField rule.target

end AliasRule

namespace AliasTable

/-- A rule inserted joins those there are. -/
theorem mem_insert (table : AliasTable) (rule other : AliasRule) :
    other ∈ (table.insert rule).rules ↔ other ∈ table.rules ∨ other = rule := by
  simp [insert, List.mem_insertionSort]

variable [IriSyntax]

/-- A plain rule that is read is inserted. -/
theorem read_plain_inserts (table next : AliasTable) (kind : RuleKind) (source target : Text)
    (rest : List Text) (read : table.readPlain kind source target rest = .ok next) :
    ∃ place, next = table.insert (.plain kind source target place) := by
  unfold readPlain at read
  obtain ⟨place, placed, read⟩ := Except.of_bind read
  obtain ⟨⟨⟩, logical, read⟩ := Except.of_bind read
  obtain ⟨⟨⟩, canonical, read⟩ := Except.of_bind read
  cases read
  exact ⟨place, rfl⟩

/-- A template rule that is read is what its line declares, inserted. -/
theorem read_template_inserts (table next : AliasTable) (source target : Text)
    (rest : List Text) (read : table.readTemplate source target rest = .ok next) :
    ∃ rule, (templateLine source target).toRule = .ok rule ∧ next = table.insert rule := by
  unfold readTemplate withRule at read
  split at read
  · obtain ⟨rule, accepted, same⟩ := Except.of_map_error read
    exact ⟨rule, accepted, same.symm⟩
  · cases read

/-- A template rule its line declares is as legible as its names. -/
theorem template_line_legible (source target : Text) (rule : AliasRule)
    (sourceField : Text.IsField source) (targetField : Text.IsField target)
    (accepted : (templateLine source target).toRule = .ok rule) : rule.Legible := by
  obtain ⟨_, sameSource, sameTarget, _, part⟩ := DeclaredRule.to_rule_states _ rule accepted
  obtain ⟨_, _, sameVerb, _, _⟩ := DeclaredRule.request_part_of_named _ rule.request rfl part
  exact ⟨sameVerb, sameSource.symm ▸ sourceField, sameTarget.symm ▸ targetField⟩

/-- A rule read from fields is legible. -/
theorem read_fields_legible (table next : AliasTable) (content : Text) (fields : List Text)
    (words : ∀ word ∈ fields, Text.IsField word)
    (legible : ∀ rule ∈ table.rules, rule.Legible)
    (read : table.readFields content fields = .ok next) : ∀ rule ∈ next.rules, rule.Legible := by
  have added : ∀ rule : AliasRule, rule.Legible → next = table.insert rule →
      ∀ other ∈ next.rules, other.Legible := by
    intro rule here same other inside
    rw [same, mem_insert] at inside
    rcases inside with old | new
    · exact legible other old
    · exact new ▸ here
  match fields with
  | [] => cases read
  | [_] => cases read
  | [word, hops] =>
    simp only [readFields] at read
    split at read
    · split at read
      · cases read
        exact legible
      · cases read
    · cases read
  | kind :: source :: target :: rest =>
    have sourceField : Text.IsField source := words source (by simp)
    have targetField : Text.IsField target := words target (by simp)
    simp only [readFields] at read
    split at read
    · split at read
      · cases read
      · split at read
        · obtain ⟨rule, accepted, same⟩ := read_template_inserts table next source target rest read
          exact added rule
            (template_line_legible source target rule sourceField targetField accepted) same
        · split at read
          · obtain ⟨place, same⟩ := read_plain_inserts table next _ source target rest read
            exact added _ ⟨rfl, sourceField, targetField⟩ same
          · cases read
    · cases read

/-- Every rule of a table the reader accepts is legible. -/
theorem parse_legible (text : Text) (table : AliasTable) (read : parse text = .ok table) :
    ∀ rule ∈ table.rules, rule.Legible := by
  have run : ∀ (lines : List Text) (number : Nat) (start : AliasTable),
      (∀ rule ∈ start.rules, rule.Legible) → start.readLines lines number = .ok table →
      ∀ rule ∈ table.rules, rule.Legible := by
    intro lines
    induction lines with
    | nil =>
      intro number start legible read
      cases read
      exact legible
    | cons raw rest ih =>
      intro number start legible read
      simp only [readLines] at read
      split at read
      · rename_i next accepted
        refine ih (number + 1) next ?_ read
        unfold readLine at accepted
        split at accepted
        · cases accepted
          exact legible
        · exact read_fields_legible start next _ _ (Text.words_are_fields raw) legible accepted
      · cases read
  exact run text.lines 1 (ofRules []) (by simp [ofRules]) read

end AliasTable

/-- A text with no hash and no white space in it, and with something in it, is a field. -/
theorem Text.field_of_all (text : Text) (present : text ≠ [])
    (plain : (text.all fun c => decide (c ≠ '#') && !isWhitespace c) = true) : text.IsField := by
  refine ⟨present, fun c inside => ?_⟩
  simpa using List.all_eq_true.mp plain c inside

/-- The word for how a rule matches is a field. -/
theorem MatchKind.keyword_is_field (kind : MatchKind) : Text.IsField kind.keyword := by
  cases kind <;> exact Text.field_of_all _ (by decide) (by decide)

/-- The word for where it resolves is one. -/
theorem ResolveAt.keyword_is_field (place : ResolveAt) : Text.IsField place.keyword := by
  cases place <;> exact Text.field_of_all _ (by decide) (by decide)

/-- No two ways to match share a word. -/
theorem MatchKind.keyword_inj (first second : MatchKind) :
    first.keyword = second.keyword ↔ first = second := by
  cases first <;> cases second <;> decide

/-- The word for a place is not read as an argument. -/
theorem ResolveAt.keyword_unargued (place : ResolveAt) : '=' ∉ place.keyword := by
  cases place <;> decide

/-- What stands after the names on the line of a rule that resolves here. -/
def ResolveAt.fields (place : ResolveAt) : List Text :=
  if place = .child then [] else [place.keyword]

namespace AliasRule

/-- The fields of a rule's line. -/
def lineFields (rule : AliasRule) : List Text :=
  rule.matchKind.keyword :: rule.source :: rule.target :: rule.resolveAt.fields

/-- Every field of a legible rule's line is one. -/
theorem line_fields_are_fields (rule : AliasRule) (legible : rule.Legible) :
    ∀ word ∈ rule.lineFields, Text.IsField word := by
  intro word inside
  simp only [lineFields, List.mem_cons] at inside
  rcases inside with rfl | rfl | rfl | later
  · exact rule.matchKind.keyword_is_field
  · exact legible.source
  · exact legible.target
  · unfold ResolveAt.fields at later
    split at later
    · cases later
    · rw [List.mem_singleton.mp later]
      exact rule.resolveAt.keyword_is_field

variable [IriSyntax]

/-- A rule the text form is for has no arguments. -/
theorem written_bare (rule : AliasRule) (written : rule.Written) :
    rule.request.fixes = [] ∧ rule.request.inputs = [] := by
  cases written with
  | plain => exact ⟨rfl, rfl⟩
  | template declared _ marked unfixed undeclared accepted =>
    obtain ⟨_, _, _, _, part⟩ := declared.to_rule_states rule accepted
    have named : declared.isNamed = true := by simp [DeclaredRule.isNamed, marked]
    obtain ⟨_, _, _, fixes, inputs⟩ := declared.request_part_of_named rule.request named part
    rw [fixes, inputs, unfixed, undeclared]
    exact ⟨rfl, rfl⟩

/-- A legible rule's line is its fields. -/
theorem line_is_spaced (rule : AliasRule) (written : rule.Written) (legible : rule.Legible) :
    rule.line = Text.spaced rule.lineFields := by
  obtain ⟨fixes, inputs⟩ := rule.written_bare written
  have unbound := legible.unbound
  have tail : rule.tail = if rule.resolveAt ≠ .child then ' ' :: rule.resolveAt.keyword else [] := by
    simp [AliasRule.tail, fixes, inputs, unbound]
  rw [line, tail, lineFields, ResolveAt.fields]
  cases rule.resolveAt <;> simp [Text.spaced_cons, Text.spaced_one]

/-- A template rule without arguments is what its own line declares. -/
theorem template_is_its_line (rule : AliasRule) (declared : DeclaredRule)
    (marked : declared.template = true) (unfixed : declared.fixes = [])
    (undeclared : declared.inputs = []) (accepted : declared.toRule = .ok rule)
    (legible : rule.Legible) :
    AliasTable.templateLine rule.source rule.target = declared ∧ rule.matchKind = .template ∧
      rule.resolveAt = .root := by
  obtain ⟨_, source, target, place, part⟩ := declared.to_rule_states rule accepted
  have named : declared.isNamed = true := by simp [DeclaredRule.isNamed, marked]
  obtain ⟨root, logical, verb, _, _⟩ := declared.request_part_of_named rule.request named part
  obtain ⟨exact, some⟩ := declared.logical_template_marked _ marked logical
  have unbound : declared.verb = none := verb ▸ legible.unbound
  obtain ⟨template, isTemplate⟩ := Option.isSome_iff_exists.mp some
  refine ⟨?_, ?_, place.trans root⟩
  · rw [source, target]
    obtain ⟨⟨kind, source'⟩, target', place', template', verb', fixes', inputs'⟩ := declared
    simp_all [AliasTable.templateLine]
  · simp [matchKind, isTemplate]

end AliasRule

namespace AliasTable

/-- The fields of the line that sets the hop budget. -/
def hopFields (hops : Nat) : List Text := ["max-hops".toList, Nat.toDigits 10 hops]

/-- So are the two of the line that sets a hop budget. -/
theorem hop_fields_are_fields (hops : Nat) : ∀ word ∈ hopFields hops, Text.IsField word := by
  have digits : Text.IsField (Nat.toDigits 10 hops) := by
    refine ⟨Nat.toDigits_ne_nil, fun c inside => ?_⟩
    have digit : c.isDigit = true :=
      Nat.isDigit_of_mem_toDigits (by decide) (by decide) inside
    have range : 0x30 ≤ c.toNat ∧ c.toNat ≤ 0x39 := by
      simpa [Char.isDigit, UInt32.le_iff_toNat_le] using digit
    constructor
    · rintro rfl
      cases digit
    · simp [Text.isWhitespace]
      omega
  intro word inside
  simp only [hopFields, List.mem_cons, List.not_mem_nil, or_false] at inside
  rcases inside with rfl | rfl
  · exact Text.field_of_all _ (by decide) (by decide)
  · exact digits

variable [IriSyntax]

/-- The fields of a template rule are read as one. -/
theorem read_template_fields (table : AliasTable) (content source target : Text) :
    table.readFields content
        [MatchKind.template.keyword, source, target, ResolveAt.root.keyword] =
      (table.withRule (templateLine source target)).mapError DeclarationError.text := by
  simp [readFields, readTemplate, ResolveAt.keyword_unargued]

/-- The fields of a plain rule between IRIs are read as that rule, inserted. -/
theorem read_plain_fields (table : AliasTable) (content source target : Text) (kind : RuleKind)
    (place : ResolveAt) (logical : (Iri.parse source).isSome = true)
    (canonical : (Iri.parse target).isSome = true) :
    table.readFields content (AliasRule.plain kind source target place).lineFields =
      .ok (table.insert (.plain kind source target place)) := by
  have sides : checkSide "from" source = .ok () ∧ checkSide "to" target = .ok () := by
    simp [checkSide, logical, canonical]
  have placed : readPlace place.fields = .ok place := by cases place <;> rfl
  have short : place.fields.length ≤ 1 := by cases place <;> simp [ResolveAt.fields]
  have unargued : (place.fields.any fun field => decide ('=' ∈ field)) = false := by
    cases place <;> simp [ResolveAt.fields, ResolveAt.keyword_unargued]
  have plain : table.readPlain kind source target place.fields =
      .ok (table.insert (.plain kind source target place)) := by
    rw [readPlain, Except.bind_of_ok placed, Except.bind_of_ok sides.1,
      Except.bind_of_ok sides.2]
    rfl
  have keyword : (AliasRule.plain kind source target place).matchKind =
      match kind with
      | .exact => .exact
      | .headed => .headed := by
    cases kind <;> rfl
  have fields : (AliasRule.plain kind source target place).lineFields =
      (AliasRule.plain kind source target place).matchKind.keyword :: source :: target ::
        place.fields := rfl
  rw [fields, keyword]
  cases kind <;> simp [readFields, MatchKind.keyword_inj, unargued, short, plain]

/-- A legible rule's line is read as that rule, inserted. -/
theorem read_line_inserts (table : AliasTable) (rule : AliasRule) (written : rule.Written)
    (legible : rule.Legible) : table.readLine rule.line = .ok (table.insert rule) := by
  have fields := rule.line_fields_are_fields legible
  obtain ⟨content, words, _, _⟩ := Text.spaced_reads rule.lineFields fields
  have present : (Text.spaced rule.lineFields).isEmpty = false := by
    simp [AliasRule.lineFields, Text.spaced_cons]
  rw [rule.line_is_spaced written legible, readLine, content, present, words,
    if_neg Bool.false_ne_true]
  cases written with
  | plain kind source target place logical canonical =>
    exact read_plain_fields table _ source target kind place logical canonical
  | template declared _ marked unfixed undeclared accepted =>
    obtain ⟨line, kind, root⟩ :=
      rule.template_is_its_line declared marked unfixed undeclared accepted legible
    have shown : rule.lineFields =
        [MatchKind.template.keyword, rule.source, rule.target, ResolveAt.root.keyword] := by
      simp [AliasRule.lineFields, ResolveAt.fields, kind, root]
    rw [shown, read_template_fields, line, withRule, accepted]
    rfl

/-- Lines of rules in precedence order are read one after the other. -/
theorem read_lines_in_order (rules : List AliasRule) (table : AliasTable) (number : Nat)
    (sorted : (table.rules ++ rules).Pairwise AliasRule.Precedes)
    (written : ∀ rule ∈ rules, rule.Written) (legible : ∀ rule ∈ rules, rule.Legible) :
    ∃ read, table.readLines (rules.map AliasRule.line) number = .ok read ∧
      read.rules = table.rules ++ rules ∧ read.maxHops = table.maxHops := by
  induction rules generalizing table number with
  | nil => exact ⟨table, rfl, (List.append_nil _).symm, rfl⟩
  | cons rule rest ih =>
    have line := read_line_inserts table rule (written rule List.mem_cons_self)
      (legible rule List.mem_cons_self)
    have split : table.rules ++ rule :: rest = table.rules ++ [rule] ++ rest := by simp
    rw [split] at sorted
    have last := table.insert_last rule (List.pairwise_append.mp sorted).1
    obtain ⟨read, accepted, rules, hops⟩ := ih (table.insert rule) (number + 1)
      (last.symm ▸ sorted) (fun other inside => written other (List.mem_cons_of_mem rule inside))
      (fun other inside => legible other (List.mem_cons_of_mem rule inside))
    refine ⟨read, ?_, ?_, hops⟩
    · rw [List.map_cons, readLines, line]
      exact accepted
    · rw [rules, last, split]

/-- The line of a hop budget sets it. -/
theorem read_hops (table : AliasTable) (hops : Nat) (fits : hops ≤ wordMax) :
    table.readLine ("max-hops ".toList ++ Nat.toDigits 10 hops) = .ok (table.withMaxHops hops) := by
  obtain ⟨content, words, _, _⟩ := Text.spaced_reads _ (hop_fields_are_fields hops)
  have line : "max-hops ".toList ++ Nat.toDigits 10 hops = Text.spaced (hopFields hops) := by
    simp [hopFields, Text.spaced_cons, Text.spaced_one]
  have present : (Text.spaced (hopFields hops)).isEmpty = false := by
    simp [hopFields, Text.spaced_cons, Text.spaced_one]
  rw [line, readLine, content, present, words, if_neg Bool.false_ne_true]
  simp [hopFields, readFields, Text.parse_word_of_digits hops fits]

/-- The lines of a legible table read back as lines. -/
theorem text_lines_read (table : AliasTable) (written : ∀ rule ∈ table.rules, rule.Written)
    (legible : ∀ rule ∈ table.rules, rule.Legible) : Text.lines table.toText = table.textLines := by
  refine Text.lines_of_ended _ fun line inside => ?_
  rcases List.mem_append.mp inside with hops | shown
  · split at hops
    · have same : line = Text.spaced (hopFields table.maxHops) := by
        simpa [hopFields, Text.spaced_cons, Text.spaced_one] using hops
      rw [same]
      exact (Text.spaced_reads _ (hop_fields_are_fields table.maxHops)).2.2
    · cases hops
  · obtain ⟨rule, member, rfl⟩ := List.mem_map.mp shown
    rw [rule.line_is_spaced (written rule member) (legible rule member)]
    exact (Text.spaced_reads _ (rule.line_fields_are_fields (legible rule member))).2.2

/-- A legible table reads back whole. -/
theorem legible_reads_back (table : AliasTable) (built : table.Built)
    (fits : table.maxHops ≤ wordMax) (written : ∀ rule ∈ table.rules, rule.Written)
    (legible : ∀ rule ∈ table.rules, rule.Legible) : parse table.toText = .ok table := by
  have rebuild : ∀ (start : AliasTable) (number : Nat), start.rules = [] →
      start.maxHops = table.maxHops →
      start.readLines (table.rules.map AliasRule.line) number = .ok table := by
    intro start number empty hops
    obtain ⟨read, accepted, rules, kept⟩ := read_lines_in_order table.rules start number
      (by simpa [empty] using table.built_sorted built) written legible
    rw [accepted]
    obtain ⟨readRules, readHops, readPositive⟩ := read
    obtain ⟨tableRules, tableHops, tablePositive⟩ := table
    simp_all
  rw [parse, text_lines_read table written legible, textLines]
  by_cases usual : table.maxHops = defaultMaxHops
  · rw [if_neg (not_not.mpr usual)]
    exact rebuild (ofRules []) 1 rfl usual.symm
  · rw [if_pos usual, List.singleton_append, readLines, read_hops _ _ fits]
    exact rebuild _ 2 rfl (Nat.max_eq_left table.positive)

/-- A table that the builders leave reads back from its text exactly when each of its rules
binds no verb and has names that are single fields: a name with a `#` or with white space
in it, or no name at all, is lost. -/
theorem text_form_reads_back (table : AliasTable) (built : table.Built)
    (fits : table.maxHops ≤ wordMax) (written : ∀ rule ∈ table.rules, rule.Written) :
    parse table.toText = .ok table ↔ ∀ rule ∈ table.rules, rule.Legible :=
  ⟨parse_legible table.toText table, legible_reads_back table built fits written⟩

end AliasTable

namespace FragmentExample

local instance anyIri : IriSyntax := ⟨fun _ => true, fun _ => []⟩

def logical : Iri := "urn:example:a".toList

def backing : Iri := "urn:example:b".toList

def fragment : Iri := "urn:example:b#c".toList

/-- A table of one rule. -/
def table (target : Iri) : AliasTable :=
  (AliasTable.ofRules []).insert (.plain .exact logical target .child)

/-- The example's table is one insertion into an empty one. -/
theorem table_is_built (target : Iri) : (table target).Built := .insert _ _ .new

/-- Its rule is a plain rewrite between IRIs. -/
theorem table_is_written (target : Iri) : ∀ rule ∈ (table target).rules, rule.Written := by
  intro rule inside
  rw [table, AliasTable.mem_insert] at inside
  rcases inside with none | rfl
  · cases none
  · exact .plain .exact logical target .child rfl rfl

/-- A table whose rule goes to a fragment reads back as one whose rule goes elsewhere. -/
theorem fragment_is_lost :
    (table fragment).Built ∧ (table fragment).maxHops ≤ wordMax ∧
      (∀ rule ∈ (table fragment).rules, rule.Written) ∧
      AliasTable.parse (table fragment).toText = .ok (table backing) ∧
      table backing ≠ table fragment :=
  ⟨table_is_built fragment, by decide, table_is_written fragment, by decide,
    by decide⟩

/-- A rule that names its page by a template. -/
def declared : DeclaredRule := AliasTable.templateLine "urn:page:{n}".toList "urn:book:{n}".toList

/-- The declared rule is accepted: its template is read, and its target uses what it captures. -/
theorem declared_accepted : declared.toRule.toOption.isSome = true := by decide

def paged : AliasRule := declared.toRule.toOption.get declared_accepted

/-- The rule that the declared one is. -/
theorem paged_accepted : declared.toRule = .ok paged := by
  have accepted : declared.toRule.toOption = some paged := (Option.some_get declared_accepted).symm
  revert accepted
  cases declared.toRule with
  | error refused => intro accepted; cases accepted
  | ok rule => exact fun accepted => congrArg Except.ok (Option.some.inj accepted)

/-- An exact rule, a headed one at the root and a template one, under a budget of five hops. -/
def mixed : AliasTable :=
  ((((AliasTable.ofRules []).insert (.plain .exact logical backing .child)).insert
    (.plain .headed "urn:old:".toList "urn:new:".toList .root)).insert paged).withMaxHops 5

/-- Three insertions and a hop budget build the table. -/
theorem mixed_is_built : mixed.Built :=
  .withMaxHops _ _ (.insert _ _ (.insert _ _ (.insert _ _ .new)))

/-- Each of its rules is of a kind that the text form is for. -/
theorem mixed_is_written : ∀ rule ∈ mixed.rules, rule.Written := by
  intro rule inside
  rw [mixed, AliasTable.withMaxHops, AliasTable.mem_insert, AliasTable.mem_insert,
    AliasTable.mem_insert] at inside
  rcases inside with ((none | rfl) | rfl) | rfl
  · cases none
  · exact .plain .exact logical backing .child rfl rfl
  · exact .plain .headed _ _ .root rfl rfl
  · exact .template declared paged rfl rfl rfl paged_accepted

/-- Without a fragment the three rules and the budget read back. -/
theorem plain_target_is_kept :
    (AliasTable.parse mixed.toText = .ok mixed ↔ ∀ rule ∈ mixed.rules, rule.Legible) ∧
      AliasTable.parse mixed.toText = .ok mixed :=
  ⟨AliasTable.text_form_reads_back mixed mixed_is_built (by decide) mixed_is_written, by decide⟩

end FragmentExample

end Ikigai
