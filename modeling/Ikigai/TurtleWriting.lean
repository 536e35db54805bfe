import Ikigai.TurtleReader

/-!
# Writing Turtle

What a text says in each place of a document: an object, some objects, the properties of a
subject, a statement. Each way of putting texts together has a rule for what the whole
says, so a writer is proved piece by piece.
-/

namespace Ikigai.Turtle

abbrev Names := List (List Char × List Char)

section Rules

variable {names : Names}

/-- A text is one term, as an object. -/
def Spells (names : Names) (text : List Char) (term : Term) : Prop :=
  ∀ parser subject predicate, parser.names = names → parser.place = .object subject predicate →
    Yields text parser (parser.emit subject predicate term)

/-- A text is some terms, as the objects of one property. -/
def Lists (names : Names) (text : List Char) (terms : List Term) : Prop :=
  ∀ parser subject predicate, parser.names = names → parser.place = .object subject predicate →
    Yields text parser (parser.grow (.after subject predicate)
      (terms.map fun term => ⟨subject, predicate, term⟩))

/-- An IRI in angle brackets spells itself. -/
theorem spells_iri (text : List Char) (valid : Rfc3987.isIri text = true) :
    Spells names ('<' :: (text ++ ['>'])) (.iri text) := by
  intro parser subject predicate _ place
  exact (iri_sets valid (by rw [Parser.take, place]; rfl)).yields

/-- Escaped characters in quotes spell what they escape. -/
theorem spells_string {written value : List Char} (escapes : Escapes written value) :
    Spells names ('"' :: (written ++ ['"'])) (.string value) := by
  intro parser subject predicate _ place
  exact string_yields escapes (by rw [Parser.take, place]; rfl)

/-- A bare word spells what a reader takes it for, under the names declared. -/
theorem spells_word (c : Char) (text : List Char) (term : Term) (opens : opensWord c = true)
    (word : text.all isWordChar = true)
    (means : ∀ parser : Parser, parser.names = names → parser.value (c :: text) = some term) :
    Spells names (c :: text) term := by
  intro parser subject predicate known place
  refine word_yields opens word ?_
  rw [Parser.take, place]
  change (parser.value (c :: text)).map _ = _
  rw [means parser known]
  rfl

/-- The two bare words for a truth value spell it. -/
theorem spells_boolean (value : Bool) :
    Spells names (if value then "true".toList else "false".toList) (.boolean value) := by
  cases value with
  | false => exact spells_word 'f' ['a', 'l', 's', 'e'] _ (by rfl) (by rfl) fun _ _ => rfl
  | true => exact spells_word 't' ['r', 'u', 'e'] _ (by rfl) (by rfl) fun _ _ => rfl

/-- One term is a list of one. -/
theorem Spells.lists {text : List Char} {term : Term} (spells : Spells names text term) :
    Lists names text [term] := spells

/-- A term and more, set apart by commas. -/
theorem Lists.append {first rest : List Char} {terms further : List Term}
    (lists : Lists names first terms) (more : Lists names rest further) :
    Lists names (first ++ (", ".toList ++ rest)) (terms ++ further) := by
  intro parser subject predicate known place
  have one := lists parser subject predicate known place
  let middle := parser.grow (.after subject predicate)
    (terms.map fun term => ⟨subject, predicate, term⟩)
  have comma : Sets ", ".toList middle (middle.moveTo (.object subject predicate)) := rfl
  have two := more (middle.moveTo (.object subject predicate)) subject predicate known rfl
  have whole := one.then_yields (comma.then_yields two) rfl
  rw [List.map_append]
  simpa only [middle, Parser.grow, Parser.moveTo, List.append_assoc] using whole

/-- Objects joined by commas. -/
theorem lists_join {α : Type} (write : α → List Char) (term : α → Term) (items : List α)
    (some : items ≠ []) (each : ∀ item ∈ items, Spells names (write item) (term item)) :
    Lists names (", ".toList.intercalate (items.map write)) (items.map term) := by
  induction items with
  | nil => exact absurd rfl some
  | cons item items ih =>
    have first := (each item List.mem_cons_self).lists
    cases items with
    | nil => simpa using first
    | cons other items =>
      have rest := ih (List.cons_ne_nil _ _) fun item member =>
        each item (List.mem_cons_of_mem _ member)
      exact first.append rest

/-- A text is a property's name. -/
def Predicates (names : Names) (text predicate : List Char) : Prop :=
  ∀ parser subject, parser.names = names → parser.place = .predicate subject →
    Yields text parser (parser.moveTo (.object subject predicate))

abbrev Property := List Char × Term

/-- The triples of some properties. -/
def triplesOf (subject : Term) (properties : List Property) : List Triple :=
  properties.map fun property => ⟨subject, property.1, property.2⟩

/-- A text is some properties of whatever subject. -/
def Describes (names : Names) (text : List Char) (properties : List Property) : Prop :=
  ∀ parser subject, parser.names = names → parser.place = .predicate subject →
    ∃ predicate, Yields text parser
      (parser.grow (.after subject predicate) (triplesOf subject properties))

/-- The short word for a type is a predicate. -/
theorem predicates_type : Predicates names "a".toList rdfType := by
  intro parser subject _ place
  exact @word_yields _ _ 'a' [] (by rfl) (by rfl) (by rw [Parser.take, place]; rfl)

/-- An IRI in angle brackets is a predicate. -/
theorem predicates_iri (text : List Char) (valid : Rfc3987.isIri text = true) :
    Predicates names ('<' :: (text ++ ['>'])) text := by
  intro parser subject _ place
  exact (iri_sets valid (by rw [Parser.take, place]; rfl)).yields

/-- So is a bare word that a reader resolves. -/
theorem predicates_word (c : Char) (text predicate : List Char) (opens : opensWord c = true)
    (word : text.all isWordChar = true) (long : text ≠ [])
    (means : ∀ parser : Parser, parser.names = names →
      parser.resolve (c :: text) = some predicate) :
    Predicates names (c :: text) predicate := by
  intro parser subject known place
  refine word_yields opens word ?_
  have other : c :: text ≠ ['a'] := fun same => long (List.cons.inj same).2
  rw [Parser.take, place]
  change (if c :: text = ['a'] then _ else _) = _
  rw [if_neg other, means parser known]
  rfl

/-- A predicate and its objects describe one property for each object. -/
theorem describes_property {name text predicate : List Char} {terms : List Term}
    (predicates : Predicates names name predicate) (lists : Lists names text terms) :
    Describes names (name ++ ' ' :: text) (terms.map fun term => (predicate, term)) := by
  intro parser subject known place
  refine ⟨predicate, ?_⟩
  have named := predicates parser subject known place
  let middle := parser.moveTo (.object subject predicate)
  have space : Sets [' '] middle middle := rfl
  have objects := lists middle subject predicate known rfl
  have whole := named.then_yields (space.then_yields objects) rfl
  rw [triplesOf, List.map_map]
  exact whole

/-- Space between tokens is skipped. -/
theorem space_sets (text : List Char) (space : text.all isSpace = true) (parser : Parser) :
    Sets text parser parser := by
  induction text with
  | nil => rfl
  | cons c text ih =>
    rw [List.all_cons, Bool.and_eq_true] at space
    have skipped : (ready parser).step c = some (ready parser) := if_pos space.1
    rw [Sets, Reader.run, List.foldlM_cons, skipped]
    exact ih space.2

/-- What may stand between two properties. -/
def Separates (separator : List Char) : Prop :=
  opensDelimited separator = true ∧ ∀ parser subject predicate,
    parser.place = .after subject predicate →
      Sets separator parser (parser.moveTo (.predicate subject))

/-- A semicolon among white space separates two properties. -/
theorem semicolon_separates (space : List Char) (all : space.all isSpace = true) :
    Separates (' ' :: ';' :: space) := by
  refine ⟨rfl, fun parser subject predicate place => ?_⟩
  let opened := parser.moveTo (.predicate subject)
  have mark : Sets " ;".toList parser opened := by
    have taken : parser.take (.mark ';') = some opened := by
      simp [Parser.take, place, Parser.takeAfter, opened]
    change ((parser.take (.mark ';')).map ready).bind some = _
    rw [taken]
    rfl
  exact mark.sets (space_sets space all opened)

/-- Properties behind properties describe both. -/
theorem Describes.append {separator first rest : List Char} {properties further : List Property}
    (separates : Separates separator) (describes : Describes names first properties)
    (more : Describes names rest further) :
    Describes names (first ++ (separator ++ rest)) (properties ++ further) := by
  intro parser subject known place
  obtain ⟨predicate, one⟩ := describes parser subject known place
  let middle := parser.grow (.after subject predicate) (triplesOf subject properties)
  have apart : Sets separator middle (middle.moveTo (.predicate subject)) :=
    separates.2 middle subject predicate rfl
  obtain ⟨predicate', two⟩ := more (middle.moveTo (.predicate subject)) subject known rfl
  refine ⟨predicate', ?_⟩
  have delimited : opensDelimited (separator ++ rest) = true := by
    have opens := separates.1
    cases separator with
    | nil => cases opens
    | cons c separator => exact opens
  have whole := one.then_yields (apart.then_yields two) delimited
  rw [triplesOf, List.map_append]
  simpa only [middle, Parser.grow, Parser.moveTo, triplesOf, List.append_assoc] using whole

/-- Written properties: each text with what it says. -/
def AllDescribe (names : Names) (texts : List (List Char)) (properties : List Property) : Prop :=
  ∃ parts : List (List Property), List.Forall₂ (Describes names) texts parts ∧
    parts.flatten = properties

/-- No properties describe nothing. -/
theorem AllDescribe.nil : AllDescribe names [] [] := ⟨[], .nil, rfl⟩

/-- A description alone. -/
theorem AllDescribe.one {text : List Char} {properties : List Property}
    (describes : Describes names text properties) : AllDescribe names [text] properties :=
  ⟨[properties], .cons describes .nil, List.append_nil _⟩

/-- Descriptions of some properties, and then of others. -/
theorem AllDescribe.append {texts texts' : List (List Char)} {properties further : List Property}
    (all : AllDescribe names texts properties) (more : AllDescribe names texts' further) :
    AllDescribe names (texts ++ texts') (properties ++ further) := by
  obtain ⟨parts, each, rfl⟩ := all
  obtain ⟨parts', each', rfl⟩ := more
  exact ⟨parts ++ parts', List.rel_append each each', List.flatten_append⟩

/-- What each item's writing describes, all of them describe together. -/
theorem AllDescribe.flat_map {α : Type} (write : α → List (List Char))
    (means : α → List Property) (items : List α)
    (each : ∀ item ∈ items, AllDescribe names (write item) (means item)) :
    AllDescribe names (items.flatMap write) (items.flatMap means) := by
  induction items with
  | nil => exact .nil
  | cons item items ih =>
    rw [List.flatMap_cons, List.flatMap_cons]
    exact (each item List.mem_cons_self).append
      (ih fun item member => each item (List.mem_cons_of_mem _ member))

/-- A predicate with one object describes one property. -/
theorem AllDescribe.property {name text predicate : List Char} {term : Term}
    (predicates : Predicates names name predicate) (spells : Spells names text term) :
    AllDescribe names [name ++ ' ' :: text] [(predicate, term)] :=
  .one (describes_property predicates spells.lists)

/-- One property for each item. -/
theorem AllDescribe.properties {α : Type} {name predicate : List Char} {write : α → List Char}
    {term : α → Term} {items : List α} (predicates : Predicates names name predicate)
    (each : ∀ item ∈ items, Spells names (write item) (term item)) :
    AllDescribe names (items.map fun item => name ++ ' ' :: write item)
      (items.map fun item => (predicate, term item)) := by
  rw [List.map_eq_flatMap, List.map_eq_flatMap]
  exact .flat_map _ _ _ fun item member => .property predicates (each item member)

/-- Properties joined by a separator. -/
theorem AllDescribe.join {separator : List Char} (separates : Separates separator)
    {texts : List (List Char)} {properties : List Property}
    (all : AllDescribe names texts properties) (some : texts ≠ []) :
    Describes names (separator.intercalate texts) properties := by
  obtain ⟨parts, each, rfl⟩ := all
  induction each with
  | nil => exact absurd rfl some
  | @cons text part texts parts first rest ih =>
    cases rest with
    | nil => simpa using first
    | cons second rest => exact first.append separates (ih (List.cons_ne_nil _ _))

/-- A name of letters whose every word is an IRI. -/
structure Declares (name ns : List Char) : Prop where
  alpha : name.all Char.isAlpha = true
  long : name ≠ []
  words : ∀ word, word.all isLocal = true → Rfc3987.isIri (ns ++ word) = true

/-- A letter opens a word, and goes on with one. -/
theorem alpha_word (c : Char) (alpha : c.isAlpha = true) :
    opensWord c = true ∧ isWordChar c = true := by
  have apart : ∀ other : Char, other.isAlpha = false → c ≠ other := by
    rintro other symbol rfl
    rw [alpha] at symbol
    cases symbol
  have symbols : c ∉ [' ', '\t', '\n', '\r', ';', ',', '.', '[', ']', '<', '"'] := by
    simp only [List.mem_cons, List.not_mem_nil, or_false, not_or]
    repeat' apply And.intro
    all_goals exact apart _ (by decide)
  simp only [List.mem_cons, List.not_mem_nil, or_false, not_or] at symbols
  simp [opensWord, isWordChar, isDelimiter, isSpace, isMark, symbols]

/-- No delimiter is part of a declared name's word. -/
theorem local_word (c : Char) (isLocal : isLocal c = true) : isWordChar c = true := by
  have apart : ∀ other : Char, Turtle.isLocal other = false → c ≠ other := by
    rintro other symbol rfl
    rw [isLocal] at symbol
    cases symbol
  have symbols : c ∉ [' ', '\t', '\n', '\r', ';', ',', ']'] := by
    simp only [List.mem_cons, List.not_mem_nil, or_false, not_or]
    repeat' apply And.intro
    all_goals exact apart _ (by decide)
  simp only [List.mem_cons, List.not_mem_nil, or_false, not_or] at symbols
  simp [isWordChar, isDelimiter, isSpace, symbols]

namespace Declares

variable {name ns : List Char}

/-- A prefixed name resolves to its namespace and its local name. -/
theorem resolves (declares : Declares name ns) (word : List Char)
    (spelled : word.all isLocal = true) (parser : Parser) (known : parser.names = [(name, ns)]) :
    parser.resolve (name ++ ':' :: word) = some (ns ++ word) := by
  have absent : ':' ∉ name := fun member =>
    absurd (List.all_eq_true.mp declares.alpha ':' member) (by decide)
  simp only [Parser.resolve, Rfc3987.cut_at_cut ':' name word absent, known,
    List.find?_cons, decide_true, spelled, declares.words word spelled, Bool.and_self, if_pos]

/-- A declared name's word is one word. -/
theorem word (declares : Declares name ns) (word : List Char)
    (spelled : word.all isLocal = true) :
    ∃ c text, name ++ ':' :: word = c :: text ∧ opensWord c = true ∧
      text.all isWordChar = true ∧ ':' ∈ text := by
  cases letters : name with
  | nil => exact absurd letters declares.long
  | cons c rest =>
    have alpha := declares.alpha
    rw [letters, List.all_cons, Bool.and_eq_true, List.all_eq_true] at alpha
    refine ⟨c, rest ++ ':' :: word, rfl, (alpha_word c alpha.1).1, ?_,
      List.mem_append_right _ List.mem_cons_self⟩
    rw [List.all_eq_true] at spelled ⊢
    intro other member
    rcases List.mem_append.mp member with member | member
    · exact (alpha_word other (alpha.2 other member)).2
    · rcases List.mem_cons.mp member with rfl | member
      · rfl
      · exact local_word other (spelled other member)

/-- A prefixed name may be a predicate. -/
theorem predicates (declares : Declares name ns) (word : List Char)
    (spelled : word.all isLocal = true) :
    Predicates [(name, ns)] (name ++ ':' :: word) (ns ++ word) := by
  obtain ⟨c, text, same, opens, wordly, colon⟩ := declares.word word spelled
  rw [same]
  refine predicates_word c text _ opens wordly (List.ne_nil_of_mem colon) fun parser known => ?_
  rw [← same]
  exact declares.resolves word spelled parser known

/-- A prefixed name spells its IRI. -/
theorem spells (declares : Declares name ns) (word : List Char)
    (spelled : word.all isLocal = true) :
    Spells [(name, ns)] (name ++ ':' :: word) (.iri (ns ++ word)) := by
  obtain ⟨c, text, same, opens, wordly, colon⟩ := declares.word word spelled
  rw [same]
  refine spells_word c text _ opens wordly fun parser known => ?_
  -- a colon is in no word that stands for a boolean or a number
  have other : ∀ plain : List Char, ':' ∉ plain → c :: text ≠ plain := by
    rintro plain absent rfl
    exact absent (List.mem_cons_of_mem c colon)
  have digits : (c :: text).all Char.isDigit = false := by
    rw [List.all_eq_false]
    exact ⟨':', List.mem_cons_of_mem c colon, by decide⟩
  have resolved := declares.resolves word spelled parser known
  rw [same] at resolved
  simp only [Parser.value, if_neg (other "true".toList (by decide)),
    if_neg (other "false".toList (by decide)), digits, Bool.and_false, resolved,
    Bool.false_eq_true, if_false, Option.map_some]

end Declares

/-- A text is some triples, between statements. -/
def States (names : Names) (text : List Char) (triples : List Triple) : Prop :=
  ∀ parser, parser.names = names → parser.place = .statement → parser.nested = [] →
    Sets text parser (parser.grow .statement triples)

/-- A text that says nothing: the space between statements. -/
theorem states_space (text : List Char) (space : text.all isSpace = true) :
    States names text [] := by
  intro parser _ place _
  have same : parser.grow .statement [] = parser := by
    rw [Parser.grow, List.append_nil, ← place]
  rw [same]
  exact space_sets text space parser

/-- Statements behind statements state the triples of both. -/
theorem States.append {first rest : List Char} {triples further : List Triple}
    (states : States names first triples) (more : States names rest further) :
    States names (first ++ rest) (triples ++ further) := by
  intro parser known place nested
  have one := states parser known place nested
  have two := more (parser.grow .statement triples) known rfl nested
  have whole := one.sets two
  simpa only [Parser.grow, List.append_assoc] using whole

/-- What each item's writing states, all of them state together. -/
theorem states_flat_map {α : Type} (write : α → List Char) (means : α → List Triple)
    (items : List α) (each : ∀ item ∈ items, States names (write item) (means item)) :
    States names (items.flatMap write) (items.flatMap means) := by
  induction items with
  | nil => exact states_space [] rfl
  | cons item items ih =>
    rw [List.flatMap_cons, List.flatMap_cons]
    exact (each item List.mem_cons_self).append
      (ih fun item member => each item (List.mem_cons_of_mem _ member))

/-- A point behind the last property ends the statement. -/
theorem point_sets {parser : Parser} {subject : Term} {predicate : List Char}
    (place : parser.place = .after subject predicate) (nested : parser.nested = []) :
    Sets " .".toList parser (parser.moveTo .statement) := by
  have space : (ready parser).step ' ' = some (ready parser) := rfl
  have point : (ready parser).step '.' = some (ready (parser.moveTo .statement)) := by
    have taken : parser.take (.mark '.') = some (parser.moveTo .statement) := by
      simp [Parser.take, place, Parser.takeAfter, nested]
    change (parser.take (.mark '.')).map ready = _
    rw [taken]
    rfl
  change ((ready parser).step ' ').bind (fun reader => (reader.step '.').bind some) = _
  rw [space, Option.bind_some, point]
  rfl

/-- A subject and its properties. -/
theorem states_subject {subject text : List Char} {properties : List Property}
    (valid : Rfc3987.isIri subject = true) (describes : Describes names text properties) :
    States names ('<' :: (subject ++ ['>']) ++ (' ' :: text ++ " .".toList))
      (triplesOf (.iri subject) properties) := by
  intro parser known place nested
  have named : Sets ('<' :: (subject ++ ['>'])) parser
      (parser.moveTo (.predicate (.iri subject))) :=
    iri_sets valid (by rw [Parser.take, place]; rfl)
  let opened := parser.moveTo (.predicate (.iri subject))
  have space : Sets [' '] opened opened := rfl
  obtain ⟨predicate, said⟩ := describes opened (.iri subject) known rfl
  have ended : Sets " .".toList
      (opened.grow (.after (.iri subject) predicate) (triplesOf (.iri subject) properties))
      (parser.grow .statement (triplesOf (.iri subject) properties)) := point_sets rfl nested
  exact named.sets (space.sets (said.sets ended rfl))

/-- The heading of a document declares its name. -/
theorem heading_sets {name ns : List Char} (declares : Declares name ns) :
    Sets ("@prefix ".toList ++ ((name ++ [':']) ++ (' ' :: '<' :: (ns ++ ['>']) ++ " .".toList)))
      {} { names := [(name, ns)] } := by
  let start : Parser := {}
  let named := (start.moveTo .name).moveTo (.namespace name)
  let declared : Parser := { named with names := [(name, ns)], place := .declared }
  have directive : Sets "@prefix ".toList start (start.moveTo .name) := rfl
  have prefixed : Yields (name ++ [':']) (start.moveTo .name) named := by
    have taken : (start.moveTo .name).take (.word (name ++ [':'])) = some named := by
      change (if _ then _ else _) = _
      rw [List.getLast?_concat, List.dropLast_concat, declares.alpha, if_pos (by rfl)]
    obtain ⟨c, text, same, opens, wordly, _⟩ := declares.word [] rfl
    rw [same] at taken ⊢
    exact word_yields opens wordly taken
  have valid : Rfc3987.isIri ns = true := by
    have whole := declares.words [] rfl
    rwa [List.append_nil] at whole
  have space : Sets [' '] named named := rfl
  have bracketed : Sets ('<' :: (ns ++ ['>'])) named declared := iri_sets valid rfl
  have ended : Sets " .".toList declared (declared.moveTo .statement) := rfl
  exact directive.sets (prefixed.sets (space.sets (bracketed.sets ended)) rfl)

/-- A text that leaves the reader between statements is read as the triples it has set down. -/
theorem read_of_sets {text : List Char} {after : Parser} (sets : Sets text {} after)
    (place : after.place = .statement) (nested : after.nested = []) :
    read text = some after.triples := by
  rw [read, sets]
  simp [Reader.settle, ready, place, nested]

/-- A document: a declared name, then statements. -/
theorem read_states {text : List Char} {triples : List Triple} {name ns : List Char}
    (declares : Declares name ns) (states : States [(name, ns)] text triples) :
    read ("@prefix ".toList ++ ((name ++ [':']) ++ (' ' :: '<' :: (ns ++ ['>']) ++ " .".toList)) ++
      text) = some triples :=
  read_of_sets ((heading_sets declares).sets (states _ rfl rfl rfl)) rfl rfl

end Rules

section Nested

variable {names : Names}

/-- The triples of nested nodes, each an object of one property: the nodes are numbered. -/
def nestedTriples (subject : Term) (predicate : List Char) :
    Nat → List (List Property) → List Triple
  | _, [] => []
  | label, properties :: rest =>
    ⟨subject, predicate, .blank label⟩ :: triplesOf (.blank label) properties ++
      nestedTriples subject predicate (label + 1) rest

/-- Some nested nodes more. -/
def Parser.adorn (parser : Parser) (subject : Term) (predicate : List Char)
    (nodes : List (List Property)) : Parser :=
  { parser with
    place := .after subject predicate
    fresh := parser.fresh + nodes.length
    triples := parser.triples ++ nestedTriples subject predicate parser.fresh nodes }

/-- A nested node and its properties, as an object. -/
theorem nested_sets {text : List Char} {properties : List Property} {subject : Term}
    {predicate : List Char} (describes : Describes names text properties) (parser : Parser)
    (known : parser.names = names) (place : parser.place = .object subject predicate) :
    Sets ("[ ".toList ++ (text ++ " ]".toList)) parser
      (parser.adorn subject predicate [properties]) := by
  let opened := parser.nest subject predicate
  have bracket : Sets "[ ".toList parser opened := by
    have taken : parser.take (.mark '[') = some opened := by
      rw [Parser.take, place]
      rfl
    change ((parser.take (.mark '[')).map ready).bind (fun reader => (reader.step ' ').bind some) = _
    rw [taken]
    rfl
  obtain ⟨last, said⟩ := describes opened (.blank parser.fresh) known rfl
  have closed : Sets " ]".toList
      (opened.grow (.after (.blank parser.fresh) last) (triplesOf (.blank parser.fresh) properties))
      (parser.adorn subject predicate [properties]) := by
    have grown : parser.triples ++ nestedTriples subject predicate parser.fresh [properties] =
        parser.triples ++ [⟨subject, predicate, .blank parser.fresh⟩] ++
          triplesOf (.blank parser.fresh) properties := by
      rw [nestedTriples, nestedTriples, List.append_nil, List.append_assoc, List.singleton_append]
    rw [Parser.adorn, grown]
    rfl
  exact bracket.sets (said.sets closed rfl)

/-- Properties whose objects are nested nodes, each behind a separator. -/
theorem nodes_sets {α : Type} {separator name predicate : List Char} {subject : Term}
    (write : α → List Char) (properties : α → List Property) (separates : Separates separator)
    (predicates : Predicates names name predicate) (items : List α)
    (each : ∀ item ∈ items, Describes names (write item) (properties item)) (parser : Parser)
    (before : List Char) (known : parser.names = names)
    (place : parser.place = .after subject before) :
    ∃ last, Sets (items.flatMap fun item =>
        separator ++ (name ++ ' ' :: ("[ ".toList ++ (write item ++ " ]".toList)))) parser
      ((parser.adorn subject predicate (items.map properties)).moveTo (.after subject last)) := by
  induction items generalizing parser before with
  | nil =>
    have same : (parser.adorn subject predicate []).moveTo (.after subject before) = parser := by
      rw [Parser.adorn, Parser.moveTo, ← place]
      simp [nestedTriples]
    refine ⟨before, ?_⟩
    rw [List.map_nil, same]
    rfl
  | cons item items ih =>
    have apart := separates.2 parser subject before place
    let opened := parser.moveTo (.predicate subject)
    have named := predicates opened subject known rfl
    let object := opened.moveTo (.object subject predicate)
    have space : Sets [' '] object object := rfl
    have node := nested_sets (each item List.mem_cons_self) object known rfl
    obtain ⟨last, rest⟩ := ih (fun other member => each other (List.mem_cons_of_mem _ member))
      (object.adorn subject predicate [properties item]) predicate known rfl
    have whole := (apart.sets (named.sets (space.sets node) rfl)).sets rest
    have same : (object.adorn subject predicate [properties item]).adorn subject predicate
        (items.map properties) = parser.adorn subject predicate ((item :: items).map properties) := by
      have fresh : parser.fresh + 1 + items.length = parser.fresh + (items.length + 1) := by omega
      simp [Parser.adorn, nestedTriples, object, opened, Parser.moveTo, fresh]
    rw [same] at whole
    exact ⟨last, whole⟩

/-- More items behind some, each with its separator. -/
theorem intercalate_append (separator : List Char) (items further : List (List Char))
    (some : items ≠ []) :
    separator.intercalate (items ++ further) =
      separator.intercalate items ++ further.flatMap fun item => separator ++ item := by
  induction items with
  | nil => exact absurd rfl some
  | cons item items ih =>
    cases items with
    | nil =>
      clear ih some
      induction further generalizing item with
      | nil => simp
      | cons other further ih =>
        have rest := ih other
        simp only [List.singleton_append, List.intercalate_cons_cons, List.intercalate_singleton,
          List.flatMap_cons, List.append_assoc] at rest ⊢
        rw [rest]
    | cons other items =>
      have rest := ih (List.cons_ne_nil _ _)
      simp only [List.cons_append, List.intercalate_cons_cons, List.append_assoc] at rest ⊢
      rw [rest]

/-- A subject with properties, and behind them properties whose objects are nested nodes. -/
theorem statement_sets {α : Type} {separator name predicate subject : List Char}
    {texts : List (List Char)} {plain : List Property} (write : α → List Char)
    (properties : α → List Property) (separates : Separates separator)
    (predicates : Predicates names name predicate) (items : List α)
    (valid : Rfc3987.isIri subject = true) (describes : AllDescribe names texts plain)
    (some : texts ≠ [])
    (each : ∀ item ∈ items, Describes names (write item) (properties item)) (parser : Parser)
    (known : parser.names = names) (place : parser.place = .statement)
    (nested : parser.nested = []) :
    Sets ('<' :: (subject ++ ['>']) ++ (' ' :: separator.intercalate (texts ++ items.map fun item =>
        name ++ ' ' :: ("[ ".toList ++ (write item ++ " ]".toList))) ++ " .".toList)) parser
      { parser with
        fresh := parser.fresh + items.length
        triples := parser.triples ++ (triplesOf (.iri subject) plain ++
          nestedTriples (.iri subject) predicate parser.fresh (items.map properties)) } := by
  let opened := parser.moveTo (.predicate (.iri subject))
  have named : Sets ('<' :: (subject ++ ['>'])) parser opened :=
    iri_sets valid (by rw [Parser.take, place]; rfl)
  have space : Sets [' '] opened opened := rfl
  obtain ⟨before, said⟩ := describes.join separates some opened (.iri subject) known rfl
  let middle := opened.grow (.after (.iri subject) before) (triplesOf (.iri subject) plain)
  obtain ⟨last, nodes⟩ := nodes_sets write properties separates predicates items each middle before
    known rfl
  let adorned := (middle.adorn (.iri subject) predicate (items.map properties)).moveTo
    (.after (.iri subject) last)
  have point : Sets " .".toList adorned (adorned.moveTo .statement) := point_sets rfl nested
  have delimited : opensDelimited ((items.flatMap fun item =>
      separator ++ (name ++ ' ' :: ("[ ".toList ++ (write item ++ " ]".toList)))) ++
        " .".toList) = true := by
    have opens := separates.1
    cases items with
    | nil => rfl
    | cons item items =>
      cases separator with
      | nil => cases opens
      | cons c separator => exact opens
  have whole := named.sets (space.sets (said.sets (nodes.sets point) delimited))
  have same : adorned.moveTo .statement = { parser with
      fresh := parser.fresh + items.length
      triples := parser.triples ++ (triplesOf (.iri subject) plain ++
        nestedTriples (.iri subject) predicate parser.fresh (items.map properties)) } := by
    simp [adorned, middle, opened, Parser.moveTo, Parser.adorn, Parser.grow, place]
  rw [same] at whole
  rw [intercalate_append _ _ _ some, List.flatMap_map]
  simpa only [List.append_assoc, List.cons_append, List.nil_append] using whole

end Nested

end Ikigai.Turtle
