import Ikigai.Rfc3987

/-!
# Reading Turtle

A reader of RDF 1.1 Turtle, one character at a time. It reads prefix declarations, IRIs,
prefixed names, short strings, booleans, integers, property and object lists and nested
blank nodes, and refuses the rest of the grammar. What is written in one place is read by
what it does there, so a document is read piece by piece.
-/

namespace Ikigai.Turtle

inductive Term where
  | iri (text : List Char)
  | blank (label : Nat)
  | literal (lexical datatype : List Char)
deriving DecidableEq, Repr

structure Triple where
  subject : Term
  predicate : List Char
  object : Term
deriving DecidableEq, Repr

def rdfType : List Char := "http://www.w3.org/1999/02/22-rdf-syntax-ns#type".toList

def xsdString : List Char := "http://www.w3.org/2001/XMLSchema#string".toList

def xsdBoolean : List Char := "http://www.w3.org/2001/XMLSchema#boolean".toList

def xsdInteger : List Char := "http://www.w3.org/2001/XMLSchema#integer".toList

def Term.string (value : List Char) : Term := .literal value xsdString

def Term.boolean (value : Bool) : Term :=
  .literal (if value then "true".toList else "false".toList) xsdBoolean

inductive Token where
  | iri (text : List Char)
  | string (value : List Char)
  | word (text : List Char)
  | mark (c : Char)
deriving DecidableEq, Repr

/-- What may come next. -/
inductive Place where
  | statement
  | name
  | namespace (name : List Char)
  | declared
  | predicate (subject : Term)
  | object (subject : Term) (predicate : List Char)
  | after (subject : Term) (predicate : List Char)
deriving DecidableEq, Repr

/-- The declared names, the place, the blank nodes that are open, and the triples so far. -/
structure Parser where
  names : List (List Char × List Char) := []
  place : Place := .statement
  nested : List (Term × List Char) := []
  fresh : Nat := 0
  triples : List Triple := []
deriving DecidableEq, Repr

def isLocal (c : Char) : Bool := c.isAlphanum || c = '-' || c = '_'

namespace Parser

/-- A prefixed name's IRI. -/
def resolve (parser : Parser) (word : List Char) : Option (List Char) :=
  match Rfc3987.cutAt ':' word with
  | (_, none) => none
  | (name, some suffix) =>
    match parser.names.find? fun declared => declared.1 = name with
    | none => none
    | some declared =>
      let iri := declared.2 ++ suffix
      if suffix.all isLocal && Rfc3987.isIri iri then some iri else none

/-- What a word is as an object. -/
def value (parser : Parser) (word : List Char) : Option Term :=
  if word = "true".toList then some (.boolean true)
  else if word = "false".toList then some (.boolean false)
  else if !word.isEmpty && word.all Char.isDigit then some (.literal word xsdInteger)
  else (parser.resolve word).map .iri

/-- Some triples more. -/
def grow (parser : Parser) (place : Place) (triples : List Triple) : Parser :=
  { parser with place := place, triples := parser.triples ++ triples }

def emit (parser : Parser) (subject : Term) (predicate : List Char) (object : Term) : Parser :=
  parser.grow (.after subject predicate) [⟨subject, predicate, object⟩]

/-- A blank node opens as an object. -/
def nest (parser : Parser) (subject : Term) (predicate : List Char) : Parser :=
  { parser with
    place := .predicate (.blank parser.fresh)
    nested := (subject, predicate) :: parser.nested
    fresh := parser.fresh + 1
    triples := parser.triples ++ [⟨subject, predicate, .blank parser.fresh⟩] }

def moveTo (parser : Parser) (place : Place) : Parser := { parser with place := place }

def takeStatement (parser : Parser) : Token → Option Parser
  | .word word => if word = "@prefix".toList then some (parser.moveTo .name) else none
  | .iri text => some (parser.moveTo (.predicate (.iri text)))
  | .string _ | .mark _ => none

def takeName (parser : Parser) : Token → Option Parser
  | .word word =>
    if word.getLast? = some ':' && word.dropLast.all Char.isAlpha then
      some (parser.moveTo (.namespace word.dropLast))
    else none
  | .iri _ | .string _ | .mark _ => none

def takeNamespace (parser : Parser) (name : List Char) : Token → Option Parser
  | .iri text => some { parser with names := (name, text) :: parser.names, place := .declared }
  | .word _ | .string _ | .mark _ => none

def takeDeclared (parser : Parser) : Token → Option Parser
  | .mark c => if c = '.' then some (parser.moveTo .statement) else none
  | .iri _ | .string _ | .word _ => none

def takePredicate (parser : Parser) (subject : Term) : Token → Option Parser
  | .word word =>
    if word = ['a'] then some (parser.moveTo (.object subject rdfType))
    else (parser.resolve word).map fun predicate => parser.moveTo (.object subject predicate)
  | .iri text => some (parser.moveTo (.object subject text))
  | .string _ | .mark _ => none

def takeObject (parser : Parser) (subject : Term) (predicate : List Char) :
    Token → Option Parser
  | .iri text => some (parser.emit subject predicate (.iri text))
  | .string value => some (parser.emit subject predicate (.string value))
  | .word word => (parser.value word).map (parser.emit subject predicate)
  | .mark c => if c = '[' then some (parser.nest subject predicate) else none

def takeAfter (parser : Parser) (subject : Term) (predicate : List Char) :
    Token → Option Parser
  | .mark c =>
    if c = ',' then some (parser.moveTo (.object subject predicate))
    else if c = ';' then some (parser.moveTo (.predicate subject))
    else
      match parser.nested with
      | [] => if c = '.' then some (parser.moveTo .statement) else none
      | (subject, predicate) :: nested =>
        if c = ']' then some { parser with place := .after subject predicate, nested := nested }
        else none
  | .iri _ | .string _ | .word _ => none

/-- One token. -/
def take (parser : Parser) (token : Token) : Option Parser :=
  match parser.place with
  | .statement => parser.takeStatement token
  | .name => parser.takeName token
  | .namespace name => parser.takeNamespace name token
  | .declared => parser.takeDeclared token
  | .predicate subject => parser.takePredicate subject token
  | .object subject predicate => parser.takeObject subject predicate token
  | .after subject predicate => parser.takeAfter subject predicate token

end Parser

/-- What is being read, with what there is of it. -/
inductive Mode where
  | between
  | iri (read : List Char)
  | string (read : List Char)
  | escape (read : List Char)
  | closed
  | word (read : List Char)
deriving DecidableEq, Repr

structure Reader where
  mode : Mode := .between
  parser : Parser := {}
deriving DecidableEq, Repr

def isSpace (c : Char) : Bool := c ∈ [' ', '\t', '\n', '\r']

def isMark (c : Char) : Bool := c ∈ [';', ',', '.', '[', ']']

/-- What ends a word, or may follow a string. -/
def isDelimiter (c : Char) : Bool := isSpace c || c ∈ [';', ',', ']']

def unescape (c : Char) : Option Char :=
  match c with
  | 't' => some '\t'
  | 'n' => some '\n'
  | 'r' => some '\r'
  | 'b' => some '\x08'
  | 'f' => some '\x0c'
  | '"' => some '"'
  | '\'' => some '\''
  | '\\' => some '\\'
  | _ => none

/-- A parser between tokens. -/
def ready (parser : Parser) : Reader := { parser }

/-- A character between tokens. -/
def opening (parser : Parser) (c : Char) : Option Reader :=
  if isSpace c then some (ready parser)
  else if isMark c then (parser.take (.mark c)).map ready
  else if c = '<' then some ⟨.iri [], parser⟩
  else if c = '"' then some ⟨.string [], parser⟩
  else some ⟨.word [c], parser⟩

namespace Reader

/-- The parser once a word is taken as ended. -/
def settle (reader : Reader) : Option Parser :=
  match reader.mode with
  | .between | .closed => some reader.parser
  | .word read => reader.parser.take (.word read)
  | .iri _ | .string _ | .escape _ => none

/-- One character. -/
def step (reader : Reader) (c : Char) : Option Reader :=
  match reader.mode with
  | .between => opening reader.parser c
  | .closed => if isDelimiter c then opening reader.parser c else none
  | .word read =>
    if isDelimiter c then reader.settle.bind fun parser => opening parser c
    else some { reader with mode := .word (read ++ [c]) }
  | .iri read =>
    if c = '>' then
      if Rfc3987.isIri read then (reader.parser.take (.iri read)).map ready else none
    else if Rfc3987.isForbidden c then none
    else some { reader with mode := .iri (read ++ [c]) }
  | .string read =>
    if c = '"' then (reader.parser.take (.string read)).map (Reader.mk .closed)
    else if c = '\\' then some { reader with mode := .escape read }
    else if c = '\n' || c = '\r' then none
    else some { reader with mode := .string (read ++ [c]) }
  | .escape read =>
    (unescape c).map fun meant => { reader with mode := .string (read ++ [meant]) }

def run (reader : Reader) (text : List Char) : Option Reader := text.foldlM step reader

end Reader

/-- The triples of a document. -/
def read (text : List Char) : Option (List Triple) :=
  match ((ready {}).run text).bind Reader.settle with
  | none => none
  | some parser =>
    if parser.place = .statement && parser.nested.isEmpty then some parser.triples else none

/-- Reading two texts one after the other is reading the first and going on with the second. -/
theorem run_append (reader : Reader) (first rest : List Char) :
    reader.run (first ++ rest) = (reader.run first).bind (Reader.run · rest) :=
  List.foldlM_append

/-- Whether a text opens with what ends a word. -/
def opensDelimited (text : List Char) : Bool := text.head?.any isDelimiter

/-- A delimiter finds the parser that the word before it leaves. -/
theorem step_delimiter (reader : Reader) (parser : Parser) (c : Char)
    (settled : reader.settle = some parser) (delimits : isDelimiter c = true) :
    reader.step c = opening parser c := by
  obtain ⟨mode, before⟩ := reader
  cases mode with
  | between =>
    cases settled
    rfl
  | closed =>
    cases settled
    exact if_pos delimits
  | word read =>
    have ended : (Reader.mk (.word read) before).step c =
        ((Reader.mk (.word read) before).settle).bind fun parser => opening parser c :=
      if_pos delimits
    rw [ended, settled]
    rfl
  | iri read => cases settled
  | string read => cases settled
  | escape read => cases settled

/-- A reader that has settled reads on as a ready one, where what follows cannot go on the word
before. -/
theorem run_settled (reader : Reader) (parser : Parser) (text : List Char)
    (settled : reader.settle = some parser) (delimited : opensDelimited text = true) :
    reader.run text = (ready parser).run text := by
  cases text with
  | nil => cases delimited
  | cons c rest =>
    have same : reader.step c = (ready parser).step c :=
      step_delimiter reader parser c settled delimited
    simp only [Reader.run, List.foldlM_cons, same]

/-- A text takes one parser to another, and what it ends with is ended. -/
def Sets (text : List Char) (before after : Parser) : Prop :=
  (ready before).run text = some (ready after)

/-- A text takes one parser to another once what it ends with is ended. -/
def Yields (text : List Char) (before after : Parser) : Prop :=
  ((ready before).run text).bind Reader.settle = some after

section Texts

variable {first rest : List Char} {before middle after : Parser}

/-- What leaves the reader ready yields. -/
theorem Sets.yields (sets : Sets first before after) : Yields first before after := by
  rw [Yields, sets]
  rfl

/-- Texts that leave it ready, one after the other, leave it ready. -/
theorem Sets.sets (sets : Sets first before middle) (further : Sets rest middle after) :
    Sets (first ++ rest) before after := by
  rw [Sets, run_append, sets]
  exact further

/-- A text that yields behind one that leaves it ready yields. -/
theorem Sets.then_yields (sets : Sets first before middle) (further : Yields rest middle after) :
    Yields (first ++ rest) before after := by
  rw [Yields, run_append, sets]
  exact further

/-- What follows what yields is read as by a ready reader, if it begins with a delimiter. -/
theorem Yields.run_append (yields : Yields first before middle)
    (delimited : opensDelimited rest = true) :
    (ready before).run (first ++ rest) = (ready middle).run rest := by
  obtain ⟨reader, reads, settled⟩ := Option.bind_eq_some_iff.mp yields
  rw [Turtle.run_append, reads]
  exact run_settled reader middle rest settled delimited

/-- So what yields and then leaves the reader ready leaves it ready. -/
theorem Yields.sets (yields : Yields first before middle) (further : Sets rest middle after)
    (delimited : opensDelimited rest = true) : Sets (first ++ rest) before after := by
  rw [Sets, yields.run_append delimited]
  exact further

/-- And what yields twice yields. -/
theorem Yields.then_yields (yields : Yields first before middle)
    (further : Yields rest middle after) (delimited : opensDelimited rest = true) :
    Yields (first ++ rest) before after := by
  rw [Yields, yields.run_append delimited]
  exact further

end Texts

/-- Characters that are not forbidden in an IRI are read into it. -/
theorem run_iri (parser : Parser) (read text rest : List Char) (plain : Rfc3987.Plain text) :
    (Reader.mk (.iri read) parser).run (text ++ rest) =
      (Reader.mk (.iri (read ++ text)) parser).run rest := by
  induction text generalizing read with
  | nil => rw [List.nil_append, List.append_nil]
  | cons c text ih =>
    have allowed := plain c List.mem_cons_self
    have other : c ≠ '>' := by
      rintro rfl
      exact absurd allowed (by decide)
    have stepped : (Reader.mk (.iri read) parser).step c =
        some ⟨.iri (read ++ [c]), parser⟩ := by
      simp only [Reader.step, if_neg other, allowed, Bool.false_eq_true, if_false]
    have further := ih (read ++ [c]) fun other member => plain other (List.mem_cons_of_mem c member)
    rw [List.append_assoc, List.singleton_append] at further
    rw [← further, Reader.run, List.cons_append, List.foldlM_cons, stepped]
    rfl

/-- An IRI between brackets is read as itself. -/
theorem iri_sets {before after : Parser} {text : List Char} (valid : Rfc3987.isIri text = true)
    (takes : before.take (.iri text) = some after) :
    Sets ('<' :: (text ++ ['>'])) before after := by
  have reads := run_iri before [] text ['>'] (Rfc3987.plain_iri text valid)
  have ends : (Reader.mk (.iri text) before).run ['>'] = some (ready after) := by
    simp only [Reader.run, List.foldlM_cons, List.foldlM_nil, Reader.step, if_pos, valid, takes]
    rfl
  rw [List.nil_append, ends] at reads
  exact reads

/-- What a word is made of, past what it opens with. -/
def isWordChar (c : Char) : Bool := !isDelimiter c

/-- What a word opens with. -/
def opensWord (c : Char) : Bool := !isSpace c && !isMark c && c ≠ '<' && c ≠ '"'

/-- Word characters are read into a word. -/
theorem run_word (parser : Parser) (read text : List Char) (word : text.all isWordChar = true) :
    (Reader.mk (.word read) parser).run text = some ⟨.word (read ++ text), parser⟩ := by
  induction text generalizing read with
  | nil =>
    rw [List.append_nil]
    rfl
  | cons c text ih =>
    rw [List.all_cons, Bool.and_eq_true, isWordChar, Bool.not_eq_true'] at word
    have stepped : (Reader.mk (.word read) parser).step c =
        some ⟨.word (read ++ [c]), parser⟩ := by
      simp only [Reader.step, word.1, Bool.false_eq_true, if_false]
    have further := ih (read ++ [c]) word.2
    rw [List.append_assoc, List.singleton_append] at further
    rw [← further, Reader.run, List.foldlM_cons, stepped]
    rfl

/-- A bare word yields what the parser takes it for. -/
theorem word_yields {before after : Parser} {c : Char} {text : List Char}
    (opens : opensWord c = true) (word : text.all isWordChar = true)
    (takes : before.take (.word (c :: text)) = some after) : Yields (c :: text) before after := by
  simp only [opensWord, Bool.and_eq_true, Bool.not_eq_true', decide_eq_true_eq] at opens
  obtain ⟨⟨⟨space, mark⟩, bracket⟩, quote⟩ := opens
  have opened : (ready before).step c = some ⟨.word [c], before⟩ := by
    change opening before c = _
    simp only [opening, space, mark, if_neg bracket, if_neg quote, Bool.false_eq_true, if_false]
  have reads : (ready before).run (c :: text) = some ⟨.word (c :: text), before⟩ := by
    rw [Reader.run, List.foldlM_cons, opened]
    exact run_word before [c] text word
  rw [Yields, reads]
  exact takes

/-- What is written between quotes, for a value. -/
def Escapes (written value : List Char) : Prop :=
  ∀ parser read, (Reader.mk (.string read) parser).run written =
    some ⟨.string (read ++ value), parser⟩

/-- Nothing escapes nothing. -/
theorem Escapes.nil : Escapes [] [] := by
  intro parser read
  rw [List.append_nil]
  rfl

/-- Escapes one after the other escape both. -/
theorem Escapes.append {written value written' value' : List Char}
    (escapes : Escapes written value) (further : Escapes written' value') :
    Escapes (written ++ written') (value ++ value') := by
  intro parser read
  rw [run_append, escapes, Option.bind_some, further, List.append_assoc]

/-- A character that a short string may hold as it is. -/
theorem Escapes.plain (c : Char) (plain : c ∉ ['"', '\\', '\n', '\r']) : Escapes [c] [c] := by
  intro parser read
  simp only [List.mem_cons, List.not_mem_nil, or_false, not_or] at plain
  obtain ⟨quote, slash, feed, return_⟩ := plain
  simp [Reader.run, Reader.step, quote, slash, feed, return_]

/-- A backslash and a letter escape what the letter means. -/
theorem Escapes.escape (c meant : Char) (means : unescape c = some meant) :
    Escapes ['\\', c] [meant] := by
  intro parser read
  have slash : (Reader.mk (.string read) parser).step '\\' = some ⟨.escape read, parser⟩ := rfl
  have read_ : (Reader.mk (.escape read) parser).step c =
      some ⟨.string (read ++ [meant]), parser⟩ := by
    simp only [Reader.step, means, Option.map_some]
  simp only [Reader.run, List.foldlM_cons, List.foldlM_nil, slash, Option.bind_eq_bind,
    Option.bind_some, read_, Option.pure_def]

/-- What escapes each character escapes a text. -/
theorem Escapes.flat_map (escape : Char → List Char) (each : ∀ c, Escapes (escape c) [c])
    (value : List Char) : Escapes (value.flatMap escape) value := by
  induction value with
  | nil => exact .nil
  | cons c value ih =>
    rw [List.flatMap_cons]
    exact (each c).append ih

/-- A quoted string yields what the parser takes its value for. -/
theorem string_yields {before after : Parser} {written value : List Char}
    (escapes : Escapes written value) (takes : before.take (.string value) = some after) :
    Yields ('"' :: (written ++ ['"'])) before after := by
  have opened : (ready before).step '"' = some ⟨.string [], before⟩ := rfl
  have closed : (Reader.mk (.string value) before).step '"' = some ⟨.closed, after⟩ := by
    simp only [Reader.step, if_pos, takes, Option.map_some]
  have reads : (ready before).run ('"' :: (written ++ ['"'])) = some ⟨.closed, after⟩ := by
    rw [Reader.run, List.foldlM_cons, opened, Option.bind_eq_bind, Option.bind_some]
    change (Reader.mk (.string []) before).run (written ++ ['"']) = _
    rw [run_append, escapes, List.nil_append, Option.bind_some]
    simp only [Reader.run, List.foldlM_cons, List.foldlM_nil, closed]
    rfl
  rw [Yields, reads]
  rfl

end Ikigai.Turtle
