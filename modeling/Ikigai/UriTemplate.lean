import Ikigai.Text

/-!
# URI templates

A template is literal runs and captures, read from a pattern text. Its parser
refuses an unclosed brace, a malformed variable name and two captures side by
side. Matching walks the parts: a literal must come next, a capture takes a
non-empty run up to an occurrence of the literal after it, leftmost first and with
backtracking, and a final capture takes the rest.

The matcher of the source remembers failed positions so that it never retries one;
the answer does not depend on that memory, which is left out here. Captures are kept in
the order they are made.
-/

namespace Ikigai

inductive Part where
  | lit (text : Text)
  | var (name : Text)
deriving DecidableEq, Repr

namespace Part

/-- How a part is written in the pattern. -/
def spell : Part → Text
  | .lit text => text
  | .var name => '{' :: name ++ ['}']

def isVar : Part → Bool
  | .lit _ => false
  | .var _ => true

/-- A literal run is not empty and opens no expansion. -/
def Plain : Part → Prop
  | .lit text => text ≠ [] ∧ '{' ∉ text
  | .var _ => True

end Part

inductive TemplateError where
  | unclosed
  | invalidVariable (name : Text)
  | adjacentVariables
deriving DecidableEq, Repr

namespace UriTemplate

/-- The parts for a finished literal run: none when it is empty. -/
def literal (run : Text) : List Part := if run.isEmpty then [] else [.lit run]

def validName (name : Text) : Bool :=
  !name.isEmpty && name.all fun c => c.isAlphanum || c == '_'

mutual

/-- Read a literal run, then the capture that ends it. -/
def scan (run : Text) : Text → Except TemplateError (List Part)
  | [] => .ok (literal run)
  | c :: rest =>
    if c = '{' then
      match scanName [] rest with
      | .ok parts => .ok (literal run ++ parts)
      | .error refusal => .error refusal
    else scan (run ++ [c]) rest

/-- Read a variable name up to its closing brace, then what follows it. -/
def scanName (name : Text) : Text → Except TemplateError (List Part)
  | [] => .error .unclosed
  | c :: rest =>
    if c = '}' then
      if validName name then
        match scan [] rest with
        | .ok parts => .ok (.var name :: parts)
        | .error refusal => .error refusal
      else .error (.invalidVariable name)
    else scanName (name ++ [c]) rest

end

/-- Two captures side by side. -/
def adjacent : List Part → Bool
  | first :: second :: rest => (first.isVar && second.isVar) || adjacent (second :: rest)
  | _ => false

end UriTemplate

/-- A parsed template: its parts spell the pattern it was read from. -/
structure UriTemplate where
  parts : List Part
  source : Text
  spelled : parts.flatMap Part.spell = source
  plain : ∀ part ∈ parts, part.Plain
deriving DecidableEq, Repr

namespace UriTemplate

theorem literal_spells (run : Text) : (literal run).flatMap Part.spell = run := by
  cases run <;> simp [literal, Part.spell]

theorem literal_plain (run : Text) (closed : '{' ∉ run) : ∀ part ∈ literal run, part.Plain := by
  intro part inside
  cases run with
  | nil => cases inside
  | cons c rest =>
    have same : part = .lit (c :: rest) := by simpa [literal] using inside
    subst same
    exact ⟨List.cons_ne_nil c rest, closed⟩

mutual

/-- What `scan` reads, its parts spell, behind the run it was entered with. -/
theorem scan_spells (run text : Text) (parts : List Part) (read : scan run text = .ok parts) :
    parts.flatMap Part.spell = run ++ text := by
  cases text with
  | nil =>
    have same : literal run = parts := by simpa [scan] using read
    rw [← same, literal_spells, List.append_nil]
  | cons c rest =>
    unfold scan at read
    split at read
    · rename_i opens
      cases named : scanName [] rest with
      | error refusal => simp [named] at read
      | ok after =>
        have same : literal run ++ after = parts := by simpa [named] using read
        have spelled := scan_name_spells [] rest after named
        rw [← same, List.flatMap_append, literal_spells, spelled, opens]
        rfl
    · rw [scan_spells (run ++ [c]) rest parts read, List.append_assoc]
      rfl

theorem scan_name_spells (name text : Text) (parts : List Part)
    (read : scanName name text = .ok parts) :
    parts.flatMap Part.spell = '{' :: name ++ text := by
  cases text with
  | nil => simp [scanName] at read
  | cons c rest =>
    unfold scanName at read
    split at read
    · rename_i closes
      split at read
      · cases scanned : scan [] rest with
        | error refusal => simp [scanned] at read
        | ok after =>
          have same : .var name :: after = parts := by simpa [scanned] using read
          have spelled := scan_spells [] rest after scanned
          rw [← same, List.flatMap_cons, spelled, closes]
          simp [Part.spell]
      · cases read
    · rw [scan_name_spells (name ++ [c]) rest parts read]
      simp

end

mutual

theorem scan_plain (run text : Text) (parts : List Part) (closed : '{' ∉ run)
    (read : scan run text = .ok parts) : ∀ part ∈ parts, part.Plain := by
  cases text with
  | nil =>
    have same : literal run = parts := by simpa [scan] using read
    exact same ▸ literal_plain run closed
  | cons c rest =>
    unfold scan at read
    split at read
    · cases named : scanName [] rest with
      | error refusal => simp [named] at read
      | ok after =>
        have same : literal run ++ after = parts := by simpa [named] using read
        have later := scan_name_plain [] rest after named
        intro part inside
        rw [← same, List.mem_append] at inside
        exact inside.elim (literal_plain run closed part) (later part)
    · rename_i other
      refine scan_plain (run ++ [c]) rest parts ?_ read
      simpa [closed] using fun same : '{' = c => other same.symm

theorem scan_name_plain (name text : Text) (parts : List Part)
    (read : scanName name text = .ok parts) : ∀ part ∈ parts, part.Plain := by
  cases text with
  | nil => simp [scanName] at read
  | cons c rest =>
    unfold scanName at read
    split at read
    · split at read
      · cases scanned : scan [] rest with
        | error refusal => simp [scanned] at read
        | ok after =>
          have same : .var name :: after = parts := by simpa [scanned] using read
          have later := scan_plain [] rest after List.not_mem_nil scanned
          intro part inside
          rw [← same, List.mem_cons] at inside
          rcases inside with rfl | inside
          · exact trivial
          · exact later part inside
      · cases read
    · exact scan_name_plain (name ++ [c]) rest parts read

end

/-- Parse a pattern text. -/
def parse (template : Text) : Except TemplateError UriTemplate :=
  match read : scan [] template with
  | .error refusal => .error refusal
  | .ok parts =>
    if adjacent parts then .error .adjacentVariables
    else .ok ⟨parts, template, scan_spells [] template parts read,
      scan_plain [] template parts List.not_mem_nil read⟩

/-- Every way to cut a text after a non-empty front, shortest front first. -/
def cuts : Text → List (Text × Text)
  | [] => []
  | c :: rest => ([c], rest) :: (cuts rest).map fun (front, back) => (c :: front, back)

/-- The cuts a variable may make: none of its captures is empty, unless it is one of those
that may be. -/
def captures (empty : List Text) (name input : Text) : List (Text × Text) :=
  if name ∈ empty then ([], input) :: cuts input else cuts input

/-- Match the parts against the rest of the input; the captures in order. -/
def matchFrom (empty : List Text) : List Part → Text → Option (List Text)
  | [], input => if input.isEmpty then some [] else none
  | .lit text :: rest, input =>
    match input.stripPrefix text with
    | some tail => matchFrom empty rest tail
    | none => none
  | .var name :: rest, input =>
    match rest with
    | .lit next :: _ =>
      (captures empty name input).findSome? fun (front, back) =>
        if back.startsWith next then (matchFrom empty rest back).map (front :: ·) else none
    | _ => if input.isEmpty && name ∉ empty then none else some [input]

/-- The names of the captures, in order. -/
def variableNames (template : UriTemplate) : List Text :=
  template.parts.filterMap fun
    | .var name => some name
    | .lit _ => none

/-- Insert into a binding map: a repeated name keeps its last value. -/
def bind (bindings : List (Text × Text)) (entry : Text × Text) : List (Text × Text) :=
  entry :: bindings.filter fun other => other.1 ≠ entry.1

/-- Match an input where some variables may capture nothing. -/
def matchWithEmpty (template : UriTemplate) (input : Text) (empty : List Text) :
    Option (List (Text × Text)) :=
  (matchFrom empty template.parts input).map fun captures =>
    (template.variableNames.zip captures).foldl bind []

/-- Match a name, with what each variable captured. -/
def matchIri (template : UriTemplate) (name : Iri) : Option (List (Text × Text)) :=
  template.matchWithEmpty name []

/-- What a part expands to. -/
def expandPart (bindings : List (Text × Text)) : Part → Option Text
  | .lit text => some text
  | .var name => (bindings.find? fun entry => entry.1 = name).map Prod.snd

/-- Expand the template, or nothing when a variable is missing. -/
def expand (template : UriTemplate) (bindings : List (Text × Text)) : Option Text :=
  (template.parts.mapM (expandPart bindings)).map List.flatten

/-- A name that parts match opens with everything before their first expansion, and is
that text when there is no expansion. -/
theorem match_from_opens (empty : List Text) (parts : List Part)
    (plain : ∀ part ∈ parts, part.Plain) (name : Text) (captures : List Text)
    (matched : matchFrom empty parts name = some captures) :
    (parts.flatMap Part.spell).takeWhile (· ≠ '{') <+: name ∧
      ('{' ∉ parts.flatMap Part.spell → name = parts.flatMap Part.spell) := by
  induction parts generalizing name captures with
  | nil =>
    have bare : name = [] := by
      by_contra more
      simp [matchFrom, more] at matched
    subst bare
    exact ⟨List.prefix_rfl, fun _ => rfl⟩
  | cons part rest ih =>
    have plainRest : ∀ other ∈ rest, other.Plain := fun other inside =>
      plain other (List.mem_cons_of_mem _ inside)
    cases part with
    | lit text =>
      obtain ⟨_, closed⟩ := plain (.lit text) (List.mem_cons_self ..)
      simp only [matchFrom] at matched
      cases stripped : name.stripPrefix text with
      | none => simp [stripped] at matched
      | some tail =>
        simp only [stripped] at matched
        obtain ⟨opens, whole⟩ := ih plainRest tail captures matched
        rw [(Text.strip_prefix_eq_some name text tail).mp stripped]
        have run : ∀ c ∈ text, decide (c ≠ '{') = true := by
          intro c inside
          exact decide_eq_true fun same => closed (same ▸ inside)
        constructor
        · rw [List.flatMap_cons, Part.spell, List.takeWhile_append_of_pos run]
          exact (List.prefix_append_right_inj text).mpr opens
        · intro unexpanded
          rw [List.flatMap_cons, Part.spell, List.mem_append, not_or] at unexpanded
          rw [whole unexpanded.2, List.flatMap_cons, Part.spell]
    | var capture =>
      constructor
      · simp [Part.spell]
      · intro unexpanded
        simp [Part.spell] at unexpanded

/-- A name that a template matches opens with the template's literal head, and is the
template's text when that is all head. -/
theorem match_iri_opens (template : UriTemplate) (name : Iri) (bindings : List (Text × Text))
    (matched : template.matchIri name = some bindings) :
    template.source.takeWhile (· ≠ '{') <+: name ∧
      ('{' ∉ template.source → name = template.source) := by
  simp only [matchIri, matchWithEmpty, Option.map_eq_some_iff] at matched
  obtain ⟨captures, read, _⟩ := matched
  rw [← template.spelled]
  exact match_from_opens [] template.parts template.plain name captures read

end UriTemplate

end Ikigai
