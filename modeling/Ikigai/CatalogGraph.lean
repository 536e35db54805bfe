import Ikigai.CatalogTurtle
import Ikigai.MintedIris
import Ikigai.TurtleWriting

/-!
# The graph of a description

What a description says, as triples: an author's string is a literal's value or an IRI of
its own, and a node is named by what it is minted from. What the catalog writes is read back
as exactly that, whatever the strings hold.
-/

namespace Ikigai

open Turtle (Term Triple Property Names Spells Lists Describes AllDescribe States triplesOf)

namespace Rfc3987

/-- An IRI with a fragment behind its only hash. -/
theorem iri_of_fragment {scheme rest fragment : List Char} (named : isScheme scheme = true)
    (colon : ':' ∉ scheme) (valid : isRest rest = true) (hash : '#' ∉ rest)
    (reads : isFragment fragment = true) :
    isIri (scheme ++ ':' :: (rest ++ '#' :: fragment)) = true := by
  have plain := valid
  simp only [isRest, cut_absent '#' rest hash, Option.all_none, Bool.and_true] at plain
  have whole : isRest (rest ++ '#' :: fragment) = true := by
    simp only [isRest, cut_at_cut '#' rest fragment hash, plain, Option.all_some, reads,
      Bool.and_self]
  simp only [isIri, cut_at_cut ':' scheme _ colon, named, Option.any_some, whole, Bool.and_self]

/-- A word of letters, digits and dashes is a fragment. -/
theorem fragment_of_word (word : List Char) (spelled : word.all Turtle.isLocal = true) :
    isFragment word = true := by
  refine plain_spelled _ word fun c member => ?_
  have isLocal := List.all_eq_true.mp spelled c member
  refine ⟨?_, ?_⟩
  · rintro rfl
    cases isLocal
  · simp only [Turtle.isLocal, Bool.or_eq_true, decide_eq_true_eq] at isLocal
    rcases isLocal with (letter | rfl) | rfl
    · simp [isPchar, isUser, isUnreserved, letter]
    · rfl
    · rfl

end Rfc3987

/-- A namespace that ends in a fragment makes an IRI of every word. -/
theorem declares_of_fragment {name scheme rest : List Char} (alpha : name.all Char.isAlpha = true)
    (long : name ≠ []) (named : Rfc3987.isScheme scheme = true) (colon : ':' ∉ scheme)
    (valid : Rfc3987.isRest rest = true) (hash : '#' ∉ rest) :
    Turtle.Declares name (scheme ++ ':' :: (rest ++ ['#'])) where
  alpha := alpha
  long := long
  words := by
    intro word spelled
    have iri := Rfc3987.iri_of_fragment named colon valid hash
      (Rfc3987.fragment_of_word word spelled)
    rw [List.append_assoc, List.cons_append, List.append_assoc]
    exact iri

/-- The header binds each prefix to its namespace: the one of the vocabulary's own words. -/
theorem ik_declares : Turtle.Declares "ik".toList ikNamespace := by
  have whole : ikNamespace = ['h', 't', 't', 'p', 's'] ++ ':' ::
      (['/', '/', 'i', 'k', 'i', 'g', 'a', 'i', '-', 'r', 's', '.', 'd', 'e', 'v', '/', 'n', 's'] ++
        ['#']) := by
    decide
  rw [whole]
  exact declares_of_fragment (by decide) (by decide) (by decide) (by decide) (by decide) (by decide)

theorem sh_declares : Turtle.Declares "sh".toList Report.shaclNamespace := by
  have whole : Report.shaclNamespace = ['h', 't', 't', 'p'] ++ ':' ::
      (['/', '/', 'w', 'w', 'w', '.', 'w', '3', '.', 'o', 'r', 'g', '/', 'n', 's', '/', 's', 'h',
        'a', 'c', 'l'] ++ ['#']) := by
    decide
  rw [whole]
  exact declares_of_fragment (by decide) (by decide) (by decide) (by decide) (by decide) (by decide)

theorem skos_declares : Turtle.Declares "skos".toList skosNamespace := by
  have whole : skosNamespace = ['h', 't', 't', 'p'] ++ ':' ::
      (['/', '/', 'w', 'w', 'w', '.', 'w', '3', '.', 'o', 'r', 'g', '/', '2', '0', '0', '4', '/',
        '0', '2', '/', 's', 'k', 'o', 's', '/', 'c', 'o', 'r', 'e'] ++ ['#']) := by
    decide
  rw [whole]
  exact declares_of_fragment (by decide) (by decide) (by decide) (by decide) (by decide) (by decide)

def ikNames : Names := [("ik".toList, ikNamespace)]

def shNames : Names := [("sh".toList, Report.shaclNamespace)]

/-- What an authored IRI stands for: itself when it is one, else the text the author wrote. -/
def authored (text : Text) : Term :=
  if Rfc3987.isIri (escapeIriFragment text) then .iri (escapeIriFragment text) else .string text

/-- What a scope stands for. -/
def scopeMeant (scope : Text) : Term := if looksLikeIri scope then authored scope else .string scope

section Encoders

variable {names : Names}

/-- A character as the vocabulary escapes it reads back as that character. -/
theorem escape_char_escapes (c : Char) : Turtle.Escapes (Vocab.escapeChar c) [c] := by
  unfold Vocab.escapeChar
  split
  · exact .escape '\\' '\\' rfl
  · exact .escape '"' '"' rfl
  · exact .escape 'n' '\n' rfl
  · exact .escape 'r' '\r' rfl
  · exact .escape 't' '\t' rfl
  · rename_i slash quote feed return_ tab
    refine .plain c ?_
    simp only [List.mem_cons, List.not_mem_nil, or_false, not_or]
    exact ⟨quote, slash, feed, return_⟩

/-- A quoted text spells the string it was made of, whatever characters it holds. -/
theorem lit_spells (text : Text) : Spells names (Vocab.lit text) (.string text) :=
  Turtle.spells_string (.flat_map _ escape_char_escapes text)

/-- The kernel's copy, a character at a time. -/
def escapeEach (c : Char) : Text :=
  if c = '\\' then ['\\', '\\'] else if c = '"' then ['\\', '"']
  else if c = '\n' then ['\\', 'n'] else if c = '\r' then ['\\', 'r'] else [c]

/-- The replacements made one after another are one replacement for each character: none of them
touches what another wrote. -/
theorem escape_literal_each (text : Text) : escapeLiteral text = text.flatMap escapeEach := by
  have replaced : ∀ (text : Text) (old : Char) (new : Text),
      text.replace old new = text.flatMap fun c => if c = old then new else [c] :=
    fun _ _ _ => rfl
  simp only [escapeLiteral, replaced, List.flatMap_assoc]
  refine List.flatMap_congr fun c _ => ?_
  by_cases slash : c = '\\'
  · subst slash
    decide
  · by_cases quote : c = '"'
    · subst quote
      decide
    · by_cases feed : c = '\n'
      · subst feed
        decide
      · by_cases return_ : c = '\r'
        · subst return_
          decide
        · simp [escapeEach, slash, quote, feed, return_]

/-- Each character's replacement is an escape of that character alone. -/
theorem escape_each_escapes (c : Char) : Turtle.Escapes (escapeEach c) [c] := by
  by_cases slash : c = '\\'
  · subst slash
    exact .escape '\\' '\\' rfl
  · by_cases quote : c = '"'
    · subst quote
      exact .escape '"' '"' rfl
    · by_cases feed : c = '\n'
      · subst feed
        exact .escape 'n' '\n' rfl
      · by_cases return_ : c = '\r'
        · subst return_
          exact .escape 'r' '\r' rfl
        · simp only [escapeEach, if_neg slash, if_neg quote, if_neg feed, if_neg return_]
          exact .plain c (by simp [slash, quote, feed, return_])

/-- Both copies of the escape read back as the author's text. -/
theorem quotes_spells (text : Text) : Spells names (quotes (escapeLiteral text)) (.string text) := by
  rw [escape_literal_each]
  exact Turtle.spells_string (.flat_map _ escape_each_escapes text)

/-- Any IRI in angle brackets spells itself. -/
theorem bracketed_spells (iri : Text) (valid : Rfc3987.isIri iri = true) :
    Spells names (bracketed iri) (.iri iri) :=
  Turtle.spells_iri iri valid

variable [IriSyntax] (rfc : ∀ text, IriSyntax.isIri text = Rfc3987.isIri text)

include rfc

/-- A text an author wrote where an IRI belongs spells that IRI if it is one, else the string. -/
theorem iri_term_spells (text : Text) : Spells names (Vocab.iriTerm text) (authored text) := by
  unfold Vocab.iriTerm authored Iri.parse
  rw [rfc]
  by_cases valid : Rfc3987.isIri (escapeIriFragment text) = true
  · rw [if_pos valid, if_pos valid]
    exact bracketed_spells _ valid
  · rw [if_neg valid, if_neg valid]
    exact lit_spells text

/-- A capability spells what its scope means. -/
theorem cap_term_spells (scope : Text) : Spells names (Vocab.capTerm scope) (scopeMeant scope) := by
  unfold Vocab.capTerm scopeMeant
  split
  · exact iri_term_spells rfc scope
  · exact lit_spells scope

/-- A required scope spells what it means. -/
theorem scope_term_spells (scope : Text) : Spells names (scopeTerm scope) (scopeMeant scope) := by
  unfold scopeTerm scopeMeant authored Iri.parse
  rw [rfc]
  split
  · by_cases valid : Rfc3987.isIri (escapeIriFragment scope) = true
    · rw [if_pos valid, if_pos valid]
      exact bracketed_spells _ valid
    · rw [if_neg valid, if_neg valid]
      exact quotes_spells scope
  · exact quotes_spells scope

end Encoders

/-- What a property of the vocabulary says. -/
def ikMeans (word : String) (term : Term) : Property := (ikNamespace ++ word.toList, term)

def typeMeans (term : Term) : Property := (Turtle.rdfType, term)

/-- An individual or a class of the vocabulary. -/
def ikTerm (word : String) : Term := .iri (ikNamespace ++ word.toList)

section Rules

theorem ik_head (word : Text) : "ik:".toList ++ word = "ik".toList ++ ':' :: word := by
  have whole : "ik:".toList = "ik".toList ++ [':'] := by decide
  rw [whole, List.append_assoc]
  rfl

/-- Objects of one property of the vocabulary. -/
theorem ik_lists (word : String) {text : Text} {terms : List Term}
    (spelled : word.toList.all Turtle.isLocal = true) (lists : Lists ikNames text terms) :
    Describes ikNames (ikProperty word text) (terms.map (ikMeans word)) := by
  rw [ikProperty, ik_head]
  exact Turtle.describes_property (ik_declares.predicates _ spelled) lists

/-- A property of the vocabulary describes as its word means, of whatever term its value spells.
-/
theorem ik_property (word : String) {text : Text} {term : Term}
    (spelled : word.toList.all Turtle.isLocal = true) (spells : Spells ikNames text term) :
    AllDescribe ikNames [ikProperty word text] [ikMeans word term] := by
  rw [ikProperty, ik_head]
  exact .property (ik_declares.predicates _ spelled) spells

/-- One property for each item. -/
theorem ik_each {α : Type} (word : String) {write : α → Text} {term : α → Term} {items : List α}
    (spelled : word.toList.all Turtle.isLocal = true)
    (each : ∀ item ∈ items, Spells ikNames (write item) (term item)) :
    AllDescribe ikNames (items.map fun item => ikProperty word (write item))
      (items.map fun item => ikMeans word (term item)) := by
  simp only [ikProperty, ik_head]
  exact .properties (ik_declares.predicates _ spelled) each

/-- One property with every item, if there are any. -/
theorem ik_listed {α : Type} (word : String) {write : α → Text} {term : α → Term} {items : List α}
    (spelled : word.toList.all Turtle.isLocal = true)
    (each : ∀ item ∈ items, Spells ikNames (write item) (term item)) :
    AllDescribe ikNames (Vocab.listed word write items)
      (items.map fun item => ikMeans word (term item)) := by
  cases items with
  | nil => exact .nil
  | cons item items =>
    have objects := Turtle.lists_join write term (item :: items) (List.cons_ne_nil _ _) each
    have described := AllDescribe.one (ik_lists word spelled objects)
    rw [List.map_map] at described
    exact described

/-- A word of the vocabulary spells its term: the prefix is declared, and the word is a local
name. -/
theorem ik_word_spells (word : String) (spelled : word.toList.all Turtle.isLocal = true) :
    Spells ikNames (ikWord word) (ikTerm word) := by
  rw [ikWord, ik_head]
  exact ik_declares.spells _ spelled

/-- The types of a node describe one property for each. -/
theorem type_property {names : Names} {text : Text} {terms : List Term}
    (lists : Lists names text terms) :
    AllDescribe names [typeProperty text] (terms.map typeMeans) :=
  .one (Turtle.describes_property Turtle.predicates_type lists)

/-- A branch describes what the branch taken describes. -/
theorem describe_if {names : Names} (holds : Bool) {texts texts' : List Text}
    {properties properties' : List Property} (yes : AllDescribe names texts properties)
    (no : AllDescribe names texts' properties') :
    AllDescribe names (if holds then texts else texts')
      (if holds then properties else properties') := by
  cases holds with
  | true => exact yes
  | false => exact no

/-- The two words for a truth value spell it. -/
theorem boolean_spells {names : Names} (value : Bool) :
    Spells names (boolText value) (.boolean value) :=
  Turtle.spells_boolean value

end Rules

section Minting

open Rfc3987

variable {owner : Text}

/-- A path with a path behind it is one. -/
theorem path_append {left right : Text} (first : isPath left = true) (rest : isPath right = true) :
    isPath (left ++ right) = true :=
  spelled_append _ left right first rest

theorem input_word_path : isPath ":input:".toList = true := by
  have word : ":input:".toList = [':', 'i', 'n', 'p', 'u', 't', ':'] := by decide
  rw [word]
  rfl

theorem value_word_path : isPath ":value:".toList = true := by
  have word : ":value:".toList = [':', 'v', 'a', 'l', 'u', 'e', ':'] := by decide
  rw [word]
  rfl

/-- An owner minted as an IRI keeps its inputs' nodes IRIs, whatever the inputs are called. -/
theorem input_node_minted (minted : Minted owner) (name : Text) :
    Minted (Vocab.inputNodeIri owner name) :=
  (minted.append input_word_path).name name

/-- So it does its described values' nodes. -/
theorem value_node_minted (minted : Minted owner) (input value : Text) :
    Minted (Vocab.valueNodeIri owner input value) :=
  ((input_node_minted minted input).append value_word_path).name value

/-- A member of a group is escaped, so its segment may stand in a path. -/
theorem member_segment_path (member : Text) : isPath (InputGroup.memberSegment member) = true := by
  rw [InputGroup.member_segment_encodes]
  refine encode_where_spelled _ (by rfl) (fun c kept => ?_) member
  rw [InputGroup.pickMember, Bool.or_eq_false_iff] at kept
  exact kept_in_path c kept.1

/-- Segments with commas between them may stand in a path. -/
theorem joined_path (segments : List Text) (each : ∀ segment ∈ segments, isPath segment = true) :
    isPath (",".toList.intercalate segments) = true := by
  induction segments with
  | nil => rfl
  | cons segment segments ih =>
    have first := each segment List.mem_cons_self
    cases segments with
    | nil => simpa using first
    | cons other segments =>
      have rest := ih fun later member => each later (List.mem_cons_of_mem _ member)
      have comma : isPath ",".toList = true := by rfl
      exact path_append first (path_append comma rest)

/-- Letters and hyphens may stand in a path. -/
theorem letters_path (word : Text) (letters : word.all (fun c => c.isAlpha || c == '-') = true) :
    isPath word = true := by
  refine plain_spelled _ word fun c member => ?_
  have letter := List.all_eq_true.mp letters c member
  rw [Bool.or_eq_true, beq_iff_eq] at letter
  rcases letter with alpha | rfl
  · refine ⟨?_, ?_⟩
    · rintro rfl
      cases alpha
    · simp [isPchar, isUser, isUnreserved, Char.isAlphanum, alpha]
  · exact ⟨by decide, by rfl⟩

/-- A group's segment may stand in a path: its kind is letters, and its members are escaped. -/
theorem group_segment_path (group : InputGroup) : isPath group.nodeSegment = true := by
  have word : isPath "group:".toList = true := by
    have letters : "group:".toList = "group".toList ++ ":".toList := by decide
    have group : isPath "group".toList = true := letters_path _ (by decide)
    rw [letters]
    exact path_append group colon_path
  have kind : isPath group.kind.word = true := letters_path _ (by cases group.kind <;> decide)
  refine path_append (path_append (path_append word kind) colon_path)
    (joined_path _ fun segment member => ?_)
  obtain ⟨name, _, rfl⟩ := List.mem_map.mp ((OrderedSet.mem_of_list _ _).mp member)
  exact member_segment_path name

/-- An owner minted as an IRI keeps its groups' nodes IRIs. -/
theorem group_minted (minted : Minted owner) (group : InputGroup) :
    Minted (Vocab.groupIri owner group) :=
  (minted.append colon_path).append (group_segment_path group)

/-- Every endpoint's node is an IRI, whatever its id holds. -/
theorem endpoint_minted (id : Text) : Minted (Vocab.endpointIri id) := by
  have letters : isPath "endpoint".toList = true := letters_path _ (by decide)
  have word : isPath ("endpoint".toList ++ ":".toList) = true := path_append letters colon_path
  have whole : endpointPrefix = mintHead ++ ("endpoint".toList ++ ":".toList) := by decide
  have head : Minted endpointPrefix := ⟨_, whole, word⟩
  exact head.name id

/-- Every contract's node is an IRI: its id is escaped, and its digest is hexadecimal. -/
theorem contract_minted [ContentHash] (spec : ActionSpec) (id : Text) :
    Minted (spec.contractIri id) :=
  contract_iri_minted id spec.verb (spec.contractId id)

/-- A minted node in angle brackets spells itself. -/
theorem Minted.spells {names : Names} (minted : Minted owner) :
    Spells names (bracketed owner) (.iri owner) :=
  bracketed_spells owner minted.valid

end Minting

namespace Vocab

section Meanings

/-- What an input's node says. -/
def inputMeans (owner : Text) (input : ArgSpec) : List Property :=
  [ikMeans "inputName" (.string input.name), ikMeans "source" (.string (sourceName input.source)),
    ikMeans "required" (.boolean input.required)] ++
  (if input.summary.isEmpty then [] else [ikMeans "summary" (.string input.summary)]) ++
  (input.class.toList.map fun declared => ikMeans "class" (authored declared)) ++
  (input.default.toList.map fun default => ikMeans "default" (.string default)) ++
  (input.oneOf.map fun value => ikMeans "oneOf" (.string value)) ++
  (if input.isEnumerated && input.oneOf.isEmpty then [ikMeans "enumerated" (.boolean true)]
    else []) ++
  (input.examples.map fun shown => ikMeans "example" (.string shown)) ++
  (input.list.toList.map fun separator => ikMeans "listSeparator" (.string separator.word)) ++
  (input.needs.map fun needed => ikMeans "needs" (.iri (inputNodeIri owner needed))) ++
  (if input.readsBody then [ikMeans "readsBody" (.boolean true)] else []) ++
  (input.fixed.toList.map fun fixed => ikMeans "fixed" (.string fixed)) ++
  input.values.map fun value => ikMeans "valueNote" (.iri (valueNodeIri owner input.name value.1))

def skosMeans (word : String) (term : Term) : Property := (skosNamespace ++ word.toList, term)

/-- What a described value's node says. -/
def valueMeans (owner value : Text) (note : ValueNote) : List Property :=
  [typeMeans (.iri (skosNamespace ++ "Concept".toList)), skosMeans "notation" (.string value)] ++
  (if note.summary.isEmpty then [] else [skosMeans "definition" (.string note.summary)]) ++
  (note.tags.map fun tag => ikMeans "tag" (.string tag)) ++
  note.needs.map fun needed => ikMeans "needs" (.iri (inputNodeIri owner needed))

def outputFromMeans (owner : Text) : Option OutputFrom → List Property
  | some (.input name) => [ikMeans "outputFrom" (.iri (inputNodeIri owner name))]
  | some .origin => [ikMeans "outputFrom" (ikTerm "Origin")]
  | none => []

def argumentsMeans (owner : Text) : Arguments → List Property
  | .open summary => [ikMeans "openArguments" (.string summary)]
  | .envelope carrier => [ikMeans "envelope" (.iri (inputNodeIri owner carrier))]
  | .closed => []

/-- What a group's node says. -/
def groupMeans (owner : Text) (group : InputGroup) : List Property :=
  [typeMeans (ikTerm "InputGroup"), ikMeans "groupKind" (.string group.kind.word)] ++
  (group.members.map fun member => ikMeans "member" (.iri (inputNodeIri owner member))) ++
  group.pipe.toList.map fun pipe => ikMeans "pipe" (.iri (inputNodeIri owner pipe))

/-- What an owner says of what hangs off it. -/
def hungMeans (owner : Text) (inputs : List ArgSpec) (arguments : Arguments)
    (outputFrom : Option OutputFrom) (groups : List InputGroup) : List Property :=
  (inputs.map fun input => ikMeans "input" (.iri (inputNodeIri owner input.name))) ++
    argumentsMeans owner arguments ++ outputFromMeans owner outputFrom ++
    groups.map fun group => ikMeans "group" (.iri (groupIri owner group))

def transreptionMeans : EndpointKind → List Property
  | .endpoint => []
  | .transreptor transreption =>
    (transreption.reads.map fun type => ikMeans "transreptsFrom" (.string type)) ++
      (transreption.writes.map fun type => ikMeans "transreptsTo" (.string type)) ++
      [ikMeans "lossless" (.boolean transreption.lossless)]

def endpointTypeMeans : EndpointKind → List Property
  | .endpoint => [typeMeans (ikTerm "Endpoint")]
  | .transreptor _ => [typeMeans (ikTerm "Endpoint"), typeMeans (ikTerm "Transreptor")]

def failureMeans (failure : FailureClass) : Property :=
  ikMeans "mayFail" (.iri (ikNamespace ++ failureClassLocal failure))

variable [ContentHash]

/-- What an endpoint's node says. -/
def endpointMeans (description : Description) : List Property :=
  endpointTypeMeans description.kind ++ [ikMeans "id" (.string description.id)] ++
  (if description.title.isEmpty then [] else [ikMeans "title" (.string description.title)]) ++
  (if description.summary.isEmpty then [] else [ikMeans "summary" (.string description.summary)]) ++
  (description.verbs.map fun verb => ikMeans "verb" (.string (verbName verb))) ++
  (description.outputs.map fun output => ikMeans "output" (.string output)) ++
  (description.requires.map fun scope => ikMeans "requires" (scopeMeant scope)) ++
  (if description.existenceSensitive then [ikMeans "existenceSensitive" (.boolean true)] else []) ++
  (description.failures.classes.getD []).map failureMeans ++
  transreptionMeans description.kind ++
  hungMeans (endpointIri description.id) description.inputs description.arguments
    description.outputFrom description.groups ++
  description.actionSpecs.map fun action =>
    ikMeans "action" (.iri (action.contractIri description.id))

/-- What a contract's node says. -/
def actionMeans (owner : Text) (action : ActionSpec) : List Property :=
  [typeMeans (ikTerm "Action"), ikMeans "verb" (.string (verbName action.verb))] ++
  (if action.summary.isEmpty then [] else [ikMeans "summary" (.string action.summary)]) ++
  (action.outputs.map fun output => ikMeans "output" (.string output)) ++
  (action.requires.map fun scope => ikMeans "requires" (scopeMeant scope)) ++
  (action.failures.classes.getD []).map failureMeans ++
  (if action.existenceSensitive then [ikMeans "existenceSensitive" (.boolean true)] else []) ++
  hungMeans owner action.inputs action.arguments action.outputFrom action.groups

/-- The triples of an owner's inputs and of their described values. -/
def inputGraph (owner : Text) (inputs : List ArgSpec) : List Triple :=
  inputs.flatMap fun input =>
    triplesOf (.iri (inputNodeIri owner input.name)) (inputMeans owner input) ++
      input.values.flatMap fun value =>
        triplesOf (.iri (valueNodeIri owner input.name value.1)) (valueMeans owner value.1 value.2)

def groupGraph (owner : Text) (groups : List InputGroup) : List Triple :=
  groups.flatMap fun group => triplesOf (.iri (groupIri owner group)) (groupMeans owner group)

/-- The triples of one contract. -/
def actionGraph (id : Text) (action : ActionSpec) : List Triple :=
  inputGraph (action.contractIri id) action.inputs ++
    groupGraph (action.contractIri id) action.groups ++
    triplesOf (.iri (action.contractIri id)) (actionMeans (action.contractIri id) action)

/-- The graph of a description. -/
def graph (description : Description) : List Triple :=
  triplesOf (.iri (endpointIri description.id)) (endpointMeans description) ++
    (inputGraph (endpointIri description.id) description.inputs ++
      groupGraph (endpointIri description.id) description.groups ++
      description.actionSpecs.flatMap (actionGraph description.id))

end Meanings

section Writing

variable {owner : Text}

/-- An input's node spells itself. -/
theorem input_spells (minted : Minted owner) (name : Text) :
    Spells ikNames (bracketed (inputNodeIri owner name)) (.iri (inputNodeIri owner name)) :=
  (input_node_minted minted name).spells

/-- A word of the second vocabulary in angle brackets spells its IRI. -/
theorem skos_spells (word : String) (spelled : word.toList.all Turtle.isLocal = true) :
    Spells ikNames (bracketed (skosNamespace ++ word.toList))
      (.iri (skosNamespace ++ word.toList)) :=
  bracketed_spells _ (skos_declares.words _ spelled)

/-- A property of it describes as that word means. -/
theorem skos_property (word : String) {text : Text} {term : Term}
    (spelled : word.toList.all Turtle.isLocal = true) (spells : Spells ikNames text term) :
    AllDescribe ikNames [bracketed (skosNamespace ++ word.toList) ++ ' ' :: text]
      [skosMeans word term] :=
  .property (Turtle.predicates_iri _ (skos_declares.words _ spelled)) spells

/-- A described value's predicates describe its owner's node, its label and what its note says. -/
theorem value_describes (minted : Minted owner) (value : Text) (note : ValueNote) :
    AllDescribe ikNames (valuePredicates owner value note) (valueMeans owner value note) := by
  have concept := type_property (skos_spells "Concept" (by decide)).lists
  have notation_ := skos_property "notation" (by decide) (lit_spells value)
  have definition := describe_if note.summary.isEmpty .nil
    (skos_property "definition" (by decide) (lit_spells note.summary))
  have tags := ik_each "tag" (by decide) fun tag (_ : tag ∈ note.tags) => lit_spells tag
  have needs := ik_each "needs" (by decide) fun needed (_ : needed ∈ note.needs) =>
    input_spells minted needed
  exact (((concept.append notation_).append definition).append tags).append needs

/-- What an output is taken from describes the input it names, or nothing. -/
theorem output_from_describes (minted : Minted owner) (outputFrom : Option OutputFrom) :
    AllDescribe ikNames (outputFromPredicate owner outputFrom) (outputFromMeans owner outputFrom) := by
  cases outputFrom with
  | none => exact .nil
  | some output =>
    cases output with
    | input name => exact ik_property "outputFrom" (by decide) (input_spells minted name)
    | origin => exact ik_property "outputFrom" (by decide) (ik_word_spells "Origin" (by decide))

/-- A closed contract and one open under a name describe which. -/
theorem arguments_describes (minted : Minted owner) (arguments : Arguments) :
    AllDescribe ikNames (argumentsPredicate owner arguments) (argumentsMeans owner arguments) := by
  cases arguments with
  | closed => exact .nil
  | «open» summary => exact ik_property "openArguments" (by decide) (lit_spells summary)
  | envelope carrier => exact ik_property "envelope" (by decide) (input_spells minted carrier)

/-- A group describes its kind and its members. -/
theorem group_describes (minted : Minted owner) (group : InputGroup) :
    AllDescribe ikNames (groupPredicates owner group) (groupMeans owner group) := by
  have type := type_property (ik_word_spells "InputGroup" (by decide)).lists
  have kind := ik_property "groupKind" (by decide) (lit_spells group.kind.word)
  have members := ik_each "member" (by decide) fun member (_ : member ∈ group.members) =>
    input_spells minted member
  have pipe := ik_each "pipe" (by decide) fun pipe (_ : pipe ∈ group.pipe.toList) =>
    input_spells minted pipe
  exact ((type.append kind).append members).append pipe

/-- What hangs from a contract describes its inputs, how it takes undeclared ones, and its groups.
-/
theorem hung_describes (minted : Minted owner) (inputs : List ArgSpec) (arguments : Arguments)
    (outputFrom : Option OutputFrom) (groups : List InputGroup) :
    AllDescribe ikNames (hungPredicates owner inputs arguments outputFrom groups)
      (hungMeans owner inputs arguments outputFrom groups) := by
  have inputs := ik_each "input" (by decide) fun input (_ : input ∈ inputs) =>
    input_spells minted input.name
  have groups := ik_each "group" (by decide) fun group (_ : group ∈ groups) =>
    (group_minted minted group).spells
  exact ((inputs.append (arguments_describes minted arguments)).append
    (output_from_describes minted outputFrom)).append groups

/-- A class of failure spells its word in the vocabulary. -/
theorem failure_spells (failure : FailureClass) :
    Spells ikNames (failureClassTerm failure) (.iri (ikNamespace ++ failureClassLocal failure)) := by
  rw [failureClassTerm, ik_head]
  refine ik_declares.spells _ ?_
  cases failure <;> decide

/-- A transreptor describes what it converts, and any other endpoint nothing. -/
theorem transreption_describes (kind : EndpointKind) :
    AllDescribe ikNames (transreptionPredicates kind) (transreptionMeans kind) := by
  cases kind with
  | endpoint => exact .nil
  | transreptor transreption =>
    have reads := ik_listed "transreptsFrom" (by decide)
      fun type (_ : type ∈ transreption.reads) => lit_spells type
    have writes := ik_listed "transreptsTo" (by decide)
      fun type (_ : type ∈ transreption.writes) => lit_spells type
    exact (reads.append writes).append
      (ik_property "lossless" (by decide) (boolean_spells transreption.lossless))

/-- An endpoint's types describe it as an endpoint of its kind. -/
theorem types_describe (kind : EndpointKind) :
    AllDescribe ikNames [typeProperty (objectList (endpointTypes kind))] (endpointTypeMeans kind) := by
  have endpoint := ik_word_spells "Endpoint" (by decide)
  cases kind with
  | endpoint => exact type_property endpoint.lists
  | transreptor _ =>
    exact type_property (endpoint.lists.append (ik_word_spells "Transreptor" (by decide)).lists)

variable [IriSyntax] (rfc : ∀ text, IriSyntax.isIri text = Rfc3987.isIri text)

include rfc

/-- An input's predicates describe it whole: name, flags, default, values and examples. -/
theorem input_describes (minted : Minted owner) (input : ArgSpec) :
    AllDescribe ikNames (inputPredicates owner input) (inputMeans owner input) := by
  have name := ik_property "inputName" (by decide) (lit_spells input.name)
  have source := ik_property "source" (by decide) (lit_spells (sourceName input.source))
  have needed := ik_property "required" (by decide) (boolean_spells input.required)
  have summary := describe_if input.summary.isEmpty .nil
    (ik_property "summary" (by decide) (lit_spells input.summary))
  have declared := ik_each "class" (by decide) fun declared (_ : declared ∈ input.class.toList) =>
    iri_term_spells rfc declared
  have default := ik_each "default" (by decide) fun default (_ : default ∈ input.default.toList) =>
    lit_spells default
  have oneOf := ik_each "oneOf" (by decide) fun value (_ : value ∈ input.oneOf) => lit_spells value
  have enumerated := describe_if (input.isEnumerated && input.oneOf.isEmpty)
    (ik_property "enumerated" (by decide) (boolean_spells true)) .nil
  have examples := ik_each "example" (by decide) fun shown (_ : shown ∈ input.examples) =>
    lit_spells shown
  have list := ik_each "listSeparator" (by decide) fun separator (_ : separator ∈ input.list.toList) =>
    lit_spells separator.word
  have needs := ik_each "needs" (by decide) fun needed (_ : needed ∈ input.needs) =>
    input_spells minted needed
  have body := describe_if input.readsBody
    (ik_property "readsBody" (by decide) (boolean_spells true)) .nil
  have fixed := ik_each "fixed" (by decide) fun fixed (_ : fixed ∈ input.fixed.toList) =>
    lit_spells fixed
  have values := ik_each "valueNote" (by decide) fun value (_ : value ∈ input.values) =>
    (value_node_minted minted input.name value.1).spells
  have first := (name.append (source.append needed)).append summary
  have middle := (((first.append declared).append default).append oneOf).append enumerated
  have last := ((middle.append examples).append list).append needs
  exact ((last.append body).append fixed).append values

/-- A contract's predicates describe it whole: verb, inputs, output, failures and groups. -/
theorem action_describes (minted : Minted owner) (action : ActionSpec) :
    AllDescribe ikNames (actionPredicates owner action) (actionMeans owner action) := by
  have type := type_property (ik_word_spells "Action" (by decide)).lists
  have verb := ik_property "verb" (by decide) (lit_spells (verbName action.verb))
  have summary := describe_if action.summary.isEmpty .nil
    (ik_property "summary" (by decide) (lit_spells action.summary))
  have outputs := ik_each "output" (by decide) fun output (_ : output ∈ action.outputs) =>
    lit_spells output
  have scopes := ik_each "requires" (by decide) fun scope (_ : scope ∈ action.requires) =>
    cap_term_spells rfc scope
  have failures := ik_each "mayFail" (by decide)
    fun failure (_ : failure ∈ action.failures.classes.getD []) => failure_spells failure
  have sensitive := describe_if action.existenceSensitive
    (ik_property "existenceSensitive" (by decide) (boolean_spells true)) .nil
  have hung := hung_describes minted action.inputs action.arguments action.outputFrom action.groups
  have first := (type.append verb).append summary
  exact ((((first.append outputs).append scopes).append failures).append sensitive).append hung

variable [ContentHash]

/-- An endpoint's predicates describe it whole, and name each of its contracts. -/
theorem endpoint_describes (description : Description) :
    AllDescribe ikNames (endpointPredicates description) (endpointMeans description) := by
  have types := types_describe description.kind
  have id := ik_property "id" (by decide) (lit_spells description.id)
  have title := describe_if description.title.isEmpty .nil
    (ik_property "title" (by decide) (lit_spells description.title))
  have summary := describe_if description.summary.isEmpty .nil
    (ik_property "summary" (by decide) (lit_spells description.summary))
  have verbs := ik_listed "verb" (by decide) fun verb (_ : verb ∈ description.verbs) =>
    lit_spells (verbName verb)
  have outputs := ik_listed "output" (by decide) fun output (_ : output ∈ description.outputs) =>
    lit_spells output
  have scopes := ik_listed "requires" (by decide) fun scope (_ : scope ∈ description.requires) =>
    cap_term_spells rfc scope
  have sensitive := describe_if description.existenceSensitive
    (ik_property "existenceSensitive" (by decide) (boolean_spells true)) .nil
  have failures := ik_listed "mayFail" (by decide)
    fun failure (_ : failure ∈ description.failures.classes.getD []) => failure_spells failure
  have minted := endpoint_minted description.id
  have hung := hung_describes minted description.inputs description.arguments
    description.outputFrom description.groups
  have actions := ik_each "action" (by decide) fun action (_ : action ∈ description.actionSpecs) =>
    (contract_minted action description.id).spells
  have first := ((types.append id).append title).append summary
  have middle := ((first.append verbs).append outputs).append scopes
  have last := ((middle.append sensitive).append failures).append
    (transreption_describes description.kind)
  exact (last.append hung).append actions

end Writing

end Vocab

/-- What stands between two properties separates them for a reader. -/
theorem property_separates : Turtle.Separates propertySeparator := by
  have whole : propertySeparator = ' ' :: ';' :: "\n    ".toList := by decide
  rw [whole]
  exact Turtle.semicolon_separates _ (by decide)

/-- A node's statement says what its properties do. -/
theorem node_states {names : Names} {iri : Text} {predicates : List Text}
    {properties : List Property} (minted : Minted iri)
    (describes : AllDescribe names predicates properties) (some : predicates ≠ []) :
    States names (nodeStatement iri predicates) (triplesOf (.iri iri) properties) :=
  Turtle.states_subject minted.valid (describes.join property_separates some)

namespace Vocab

/-- Statements set apart by lines say some triples. -/
def Stated (nodes : List Text) (triples : List Triple) : Prop :=
  States ikNames (nodes.flatMap fun node => "\n".toList ++ node ++ "\n".toList) triples

/-- An empty line states nothing. -/
theorem line_states {names : Names} : States names "\n".toList [] :=
  Turtle.states_space _ (by decide)

namespace Stated

/-- One node states its triples. -/
theorem one {node : Text} {triples : List Triple} (states : States ikNames node triples) :
    Stated [node] triples := by
  have whole := (line_states.append states).append line_states
  rw [List.nil_append, List.append_nil] at whole
  rw [Stated, List.flatMap_singleton]
  exact whole

/-- Nodes after nodes state the triples of both. -/
theorem append {nodes nodes' : List Text} {triples further : List Triple}
    (stated : Stated nodes triples) (more : Stated nodes' further) :
    Stated (nodes ++ nodes') (triples ++ further) := by
  rw [Stated, List.flatMap_append]
  exact States.append stated more

/-- Where each item's nodes state its triples, all nodes state all triples. -/
theorem flat_map {α : Type} (write : α → List Text) (means : α → List Triple) (items : List α)
    (each : ∀ item ∈ items, Stated (write item) (means item)) :
    Stated (items.flatMap write) (items.flatMap means) := by
  rw [Stated, List.flatMap_assoc]
  exact Turtle.states_flat_map _ means items each

/-- Where each item is one node, all nodes state all triples. -/
theorem map {α : Type} (write : α → Text) (means : α → List Triple) (items : List α)
    (each : ∀ item ∈ items, States ikNames (write item) (means item)) :
    Stated (items.map write) (items.flatMap means) := by
  rw [List.map_eq_flatMap]
  exact flat_map _ means items fun item member => one (each item member)

end Stated

section Documents

variable {owner : Text}

/-- The groups' nodes state the groups. -/
theorem groups_stated (minted : Minted owner) (groups : List InputGroup) :
    Stated (groups.map (groupNode owner)) (groupGraph owner groups) :=
  .map _ _ groups fun group _ => node_states (group_minted minted group)
    (group_describes minted group) (List.cons_ne_nil _ _)

/-- The values' nodes state an input's described values. -/
theorem values_stated (minted : Minted owner) (input : ArgSpec) :
    Stated (valueNodes owner input) (input.values.flatMap fun value =>
      triplesOf (.iri (valueNodeIri owner input.name value.1))
        (valueMeans owner value.1 value.2)) :=
  .map _ _ input.values fun value _ => node_states (value_node_minted minted input.name value.1)
    (value_describes minted value.1 value.2) (List.cons_ne_nil _ _)

variable [IriSyntax] (rfc : ∀ text, IriSyntax.isIri text = Rfc3987.isIri text)

include rfc

/-- The inputs' nodes state the inputs and the values described under them. -/
theorem inputs_stated (minted : Minted owner) (inputs : List ArgSpec) :
    Stated (inputNodes owner inputs) (inputGraph owner inputs) :=
  .flat_map _ _ inputs fun input _ =>
    (Stated.one (node_states (input_node_minted minted input.name)
      (input_describes rfc minted input) (List.cons_ne_nil _ _))).append
    (values_stated minted input)

variable [ContentHash]

/-- A contract's nodes state the contract, its inputs and its groups. -/
theorem action_stated (id : Text) (action : ActionSpec) :
    Stated (actionNodes id action) (actionGraph id action) := by
  have minted := contract_minted action id
  have own := Stated.one (node_states minted (action_describes rfc minted action)
    (List.cons_ne_nil _ _))
  exact ((inputs_stated rfc minted action.inputs).append (groups_stated minted action.groups)).append
    own

/-- The nodes an endpoint has beside its own state the inputs, groups and contracts it describes.
-/
theorem extra_stated (description : Description) :
    Stated (extraNodes description)
      (inputGraph (endpointIri description.id) description.inputs ++
        groupGraph (endpointIri description.id) description.groups ++
        description.actionSpecs.flatMap (actionGraph description.id)) := by
  have minted := endpoint_minted description.id
  have actions := Stated.flat_map _ _ description.actionSpecs fun action _ =>
    action_stated rfc description.id action
  exact ((inputs_stated rfc minted description.inputs).append
    (groups_stated minted description.groups)).append actions

/-- A description is read back as its graph. -/
theorem to_turtle_read (description : Description) :
    Turtle.read (toTurtle description) = some (graph description) := by
  have gap : States ikNames "\n\n".toList [] := Turtle.states_space _ (by decide)
  have own := node_states (endpoint_minted description.id) (endpoint_describes rfc description)
    (List.cons_ne_nil _ _)
  have whole := ((gap.append own).append line_states).append (extra_stated rfc description)
  rw [List.nil_append, List.append_nil] at whole
  exact Turtle.read_states ik_declares whole

end Documents

end Vocab

end Ikigai
