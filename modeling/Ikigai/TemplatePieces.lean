import Ikigai.TemplateMatching

/-!
# The pieces of a pattern

A pattern may be cut at any character that is no brace and in no variable's name. Each piece is
a pattern of its own, and what the whole expands to is what its pieces expand to, with the
character between them.
-/

namespace Ikigai.UriTemplate

/-- A character that a pattern may be cut at. -/
def Separates (c : Char) : Prop := c ≠ '{' ∧ c ≠ '}' ∧ (c.isAlphanum || c == '_') = false

instance (c : Char) : Decidable (Separates c) := inferInstanceAs (Decidable (_ ∧ _))

/-- A pattern reads alike behind any run: its own first literal goes on with the run. -/
theorem scan_run (text : Text) :
    (∃ first after, ∀ run, scan run text = .ok (literal (run ++ first) ++ after)) ∨
      ∃ refusal, ∀ run, scan run text = .error refusal := by
  induction text with
  | nil =>
    refine .inl ⟨[], [], fun run => ?_⟩
    rw [scan, List.append_nil, List.append_nil]
  | cons c rest ih =>
    by_cases opens : c = '{'
    · cases named : scanName [] rest with
      | ok after =>
        refine .inl ⟨[], after, fun run => ?_⟩
        rw [scan, if_pos opens, named, List.append_nil]
      | error refusal =>
        refine .inr ⟨refusal, fun run => ?_⟩
        rw [scan, if_pos opens, named]
    · rcases ih with ⟨first, after, reads⟩ | ⟨refusal, refused⟩
      · refine .inl ⟨c :: first, after, fun run => ?_⟩
        rw [scan, if_neg opens, reads, List.append_assoc]
        rfl
      · refine .inr ⟨refusal, fun run => ?_⟩
        rw [scan, if_neg opens, refused]

/-- A name is read to its end only when all of it may stand in a name. -/
theorem scan_name_valid (name text : Text) (parts : List Part)
    (read : scanName name text = .ok parts) :
    ∀ c ∈ name, (c.isAlphanum || c == '_') = true := by
  induction text generalizing name with
  | nil =>
    rw [scanName] at read
    cases read
  | cons c rest ih =>
    rw [scanName] at read
    split at read
    · split at read
      · rename_i valid
        rw [validName, Bool.and_eq_true, List.all_eq_true] at valid
        exact valid.2
      · cases read
    · intro other inside
      exact ih (name ++ [c]) read other (List.mem_append_left [c] inside)

/-- A variable's name is one a pattern may hold. -/
def Named : Part → Prop
  | .lit _ => True
  | .var name => validName name = true

/-- A run of literal characters is no variable, so its part is well named. -/
theorem literal_named (run : Text) : ∀ part ∈ literal run, Named part := by
  intro part inside
  cases run with
  | nil => cases inside
  | cons c rest =>
    rw [List.mem_singleton.mp inside]
    exact trivial

mutual

/-- Every variable that is scanned has a name a pattern may hold. -/
theorem scan_named (run text : Text) (parts : List Part) (read : scan run text = .ok parts) :
    ∀ part ∈ parts, Named part := by
  cases text with
  | nil =>
    have same : literal run = parts := by simpa [scan] using read
    exact same ▸ literal_named run
  | cons c rest =>
    unfold scan at read
    split at read
    · cases named : scanName [] rest with
      | error refusal => simp [named] at read
      | ok after =>
        have same : literal run ++ after = parts := by simpa [named] using read
        have later := scan_name_named [] rest after named
        intro part inside
        rw [← same, List.mem_append] at inside
        exact inside.elim (literal_named run part) (later part)
    · exact scan_named (run ++ [c]) rest parts read

/-- So has every variable scanned behind a name that was opened. -/
theorem scan_name_named (name text : Text) (parts : List Part)
    (read : scanName name text = .ok parts) : ∀ part ∈ parts, Named part := by
  cases text with
  | nil => simp [scanName] at read
  | cons c rest =>
    unfold scanName at read
    split at read
    · split at read
      · rename_i valid
        cases scanned : scan [] rest with
        | error refusal => simp [scanned] at read
        | ok after =>
          have same : .var name :: after = parts := by simpa [scanned] using read
          have later := scan_named [] rest after scanned
          intro part inside
          rw [← same, List.mem_cons] at inside
          rcases inside with rfl | inside
          · exact valid
          · exact later part inside
      · cases read
    · exact scan_name_named (name ++ [c]) rest parts read

end

/-- Parts that a front's and a back's parts make with a character between: the literals beside
the character are one literal with it. -/
def Joins (c : Char) (parts front back : List Part) : Prop :=
  ∃ before left right after, front = before ++ literal left ∧ back = literal right ++ after ∧
    parts = before ++ .lit (left ++ c :: right) :: after

/-- Parts ahead of a join do not change where it is. -/
theorem Joins.behind {c : Char} {parts front back : List Part} (joins : Joins c parts front back)
    (ahead : List Part) : Joins c (ahead ++ parts) (ahead ++ front) back := by
  obtain ⟨before, left, right, after, rfl, rfl, rfl⟩ := joins
  exact ⟨ahead ++ before, left, right, after, by rw [List.append_assoc], rfl,
    by rw [List.append_assoc]⟩

/-- What is read of a front, a character and a back is what is read of the two, joined. Inside
a name the front has to end the name first. -/
theorem scan_cut {c : Char} (separates : Separates c) (front back : Text) :
    (∀ run parts, scan run (front ++ c :: back) = .ok parts →
      ∃ first second, scan run front = .ok first ∧ scan [] back = .ok second ∧
        Joins c parts first second) ∧
      ∀ name parts, scanName name (front ++ c :: back) = .ok parts →
        ∃ first second, scanName name front = .ok first ∧ scan [] back = .ok second ∧
          Joins c parts first second := by
  induction front with
  | nil =>
    constructor
    · intro run parts read
      rw [List.nil_append, scan, if_neg separates.1] at read
      rcases scan_run back with ⟨right, after, reads⟩ | ⟨refusal, refused⟩
      · rw [reads] at read
        refine ⟨literal run, literal right ++ after, by rw [scan], by simpa using reads [], ?_⟩
        refine ⟨[], run, right, after, rfl, rfl, ?_⟩
        rw [← Except.ok.inj read, List.append_assoc, literal]
        simp
      · rw [refused] at read
        cases read
    · intro name parts read
      rw [List.nil_append, scanName, if_neg separates.2.1] at read
      have valid := scan_name_valid (name ++ [c]) back parts read c
        (List.mem_append_right name List.mem_cons_self)
      rw [separates.2.2] at valid
      cases valid
  | cons d front ih =>
    constructor
    · intro run parts read
      rw [List.cons_append, scan] at read
      by_cases opens : d = '{'
      · rw [if_pos opens] at read
        cases named : scanName [] (front ++ c :: back) with
        | error refusal =>
          rw [named] at read
          cases read
        | ok after =>
          rw [named] at read
          obtain ⟨first, second, one, two, joins⟩ := ih.2 [] after named
          refine ⟨literal run ++ first, second, ?_, two, Except.ok.inj read ▸ joins.behind _⟩
          rw [scan, if_pos opens, one]
      · rw [if_neg opens] at read
        obtain ⟨first, second, one, two, joins⟩ := ih.1 (run ++ [d]) parts read
        exact ⟨first, second, by rw [scan, if_neg opens, one], two, joins⟩
    · intro name parts read
      rw [List.cons_append, scanName] at read
      by_cases closes : d = '}'
      · rw [if_pos closes] at read
        by_cases valid : validName name = true
        · rw [if_pos valid] at read
          cases scanned : scan [] (front ++ c :: back) with
          | error refusal =>
            rw [scanned] at read
            cases read
          | ok after =>
            rw [scanned] at read
            obtain ⟨first, second, one, two, joins⟩ := ih.1 [] after scanned
            refine ⟨.var name :: first, second, ?_, two,
              Except.ok.inj read ▸ joins.behind [.var name]⟩
            rw [scanName, if_pos closes, if_pos valid, one]
        · rw [if_neg valid] at read
          cases read
      · rw [if_neg closes] at read
        obtain ⟨first, second, one, two, joins⟩ := ih.2 (name ++ [d]) parts read
        exact ⟨first, second, by rw [scanName, if_neg closes, one], two, joins⟩

/-- What parts expand to, one after another. -/
def expandParts (bindings : List (Text × Text)) (parts : List Part) : Option Text :=
  (parts.mapM (expandPart bindings)).map List.flatten

/-- Two runs of parts expand to the expansions of both. -/
theorem expand_parts_append (bindings : List (Text × Text)) (left right : List Part) :
    expandParts bindings (left ++ right) =
      (expandParts bindings left).bind fun first =>
        (expandParts bindings right).map fun second => first ++ second := by
  rw [expandParts, expandParts, expandParts, List.mapM_append]
  cases left.mapM (expandPart bindings) with
  | none => rfl
  | some first =>
    cases right.mapM (expandPart bindings) with
    | none => rfl
    | some second => simp

/-- A part in front expands first. -/
theorem expand_parts_cons (bindings : List (Text × Text)) (part : Part) (parts : List Part) :
    expandParts bindings (part :: parts) =
      (expandPart bindings part).bind fun first =>
        (expandParts bindings parts).map fun second => first ++ second := by
  rw [expandParts, expandParts, List.mapM_cons]
  cases expandPart bindings part with
  | none => rfl
  | some first =>
    cases parts.mapM (expandPart bindings) with
    | none => rfl
    | some second => rfl

/-- A literal expands to itself, whatever the bindings. -/
theorem expand_literal (bindings : List (Text × Text)) (text : Text) :
    expandParts bindings (literal text) = some text := by
  cases text with
  | nil => rfl
  | cons c rest => simp [literal, expandParts, expandPart]

namespace Joins

variable {c : Char} {parts front back : List Part}

/-- Joined parts expand to what the two expand to, with the character between. -/
theorem expands (joins : Joins c parts front back) (bindings : List (Text × Text)) :
    expandParts bindings parts =
      (expandParts bindings front).bind fun first =>
        (expandParts bindings back).map fun second => first ++ c :: second := by
  obtain ⟨before, left, right, after, rfl, rfl, rfl⟩ := joins
  rw [expand_parts_append, expand_parts_append, expand_parts_append, expand_parts_cons,
    expand_literal, expand_literal, expandPart]
  cases expandParts bindings before with
  | none => rfl
  | some first =>
    cases expandParts bindings after with
    | none => rfl
    | some second => simp

/-- Joined parts have the variables of the two, in order. -/
theorem names (joins : Joins c parts front back) : namesOf parts = namesOf front ++ namesOf back := by
  have silent : ∀ text, namesOf (literal text) = [] := by
    intro text
    cases text <;> rfl
  obtain ⟨before, left, right, after, rfl, rfl, rfl⟩ := joins
  simp only [namesOf, List.filterMap_append] at silent ⊢
  rw [silent, silent, List.append_nil, List.nil_append]
  rfl

/-- No two variables stand side by side exactly when of each two neighbours one is a literal. -/
theorem adjacent_eq_chain (parts : List Part) :
    adjacent parts = false ↔
      (parts.map Part.isVar).IsChain fun first second => (first && second) = false := by
  induction parts with
  | nil => simp [adjacent]
  | cons first rest ih =>
    cases rest with
    | nil => simp [adjacent]
    | cons second rest =>
      rw [adjacent, Bool.or_eq_false_iff, ih]
      simp only [List.map_cons, List.isChain_cons_cons]

/-- No variables are side by side in a piece of parts in which none are. -/
theorem apart (joins : Joins c parts front back) (apart : adjacent parts = false) :
    adjacent front = false ∧ adjacent back = false := by
  obtain ⟨before, left, right, after, rfl, rfl, rfl⟩ := joins
  rw [adjacent_eq_chain, List.map_append, List.map_cons, Part.isVar] at apart
  rw [adjacent_eq_chain, adjacent_eq_chain, List.map_append, List.map_append]
  constructor
  · apply apart.infix
    cases left with
    | nil => exact ⟨[], false :: after.map Part.isVar, by simp [literal]⟩
    | cons d left => exact ⟨[], after.map Part.isVar, by simp [literal, Part.isVar]⟩
  · apply apart.infix
    cases right with
    | nil => exact ⟨before.map Part.isVar ++ [false], [], by simp [literal]⟩
    | cons d right => exact ⟨before.map Part.isVar, [], by simp [literal, Part.isVar]⟩

end Joins

/-- A text is read as a template exactly when it scans to the template's parts, no two of which
are variables side by side. -/
theorem parse_eq_ok_iff (text : Text) (template : UriTemplate) :
    parse text = .ok template ↔
      scan [] text = .ok template.parts ∧ adjacent template.parts = false ∧ template.source = text := by
  constructor
  · intro parsed
    refine ⟨?_, parse_apart parsed, ?_⟩
    all_goals
      unfold parse at parsed
      split at parsed
      · cases parsed
      · rename_i parts read
        split at parsed
        · cases parsed
        · cases parsed
          first | exact read | rfl
  · rintro ⟨read, apart, rfl⟩
    unfold parse
    split
    · rename_i refusal refused
      rw [read] at refused
      cases refused
    · rename_i parts again
      rw [read] at again
      cases again
      rw [apart]
      rfl

/-- What is read apart of a text is a template. -/
theorem parse_of_scan {text : Text} {parts : List Part} (read : scan [] text = .ok parts)
    (apart : adjacent parts = false) :
    ∃ template, parse text = .ok template ∧ template.parts = parts := by
  refine ⟨⟨parts, text, scan_spells [] text parts read,
    scan_plain [] text parts List.not_mem_nil read⟩, ?_, rfl⟩
  exact (parse_eq_ok_iff text _).mpr ⟨read, apart, rfl⟩

/-- A template that is cut comes apart into two, which it expands to with the character
between. -/
theorem parse_cut {c : Char} (separates : Separates c) {front back : Text} {template : UriTemplate}
    (parsed : parse (front ++ c :: back) = .ok template) :
    ∃ first second, parse front = .ok first ∧ parse back = .ok second ∧
      template.variableNames = first.variableNames ++ second.variableNames ∧
      ∀ bindings, template.expand bindings =
        (first.expand bindings).bind fun left =>
          (second.expand bindings).map fun right => left ++ c :: right := by
  obtain ⟨read, apart, _⟩ := (parse_eq_ok_iff _ template).mp parsed
  obtain ⟨one, two, readFront, readBack, joins⟩ := (scan_cut separates front back).1 [] _ read
  obtain ⟨apartFront, apartBack⟩ := joins.apart apart
  obtain ⟨first, parsedFront, rfl⟩ := parse_of_scan readFront apartFront
  obtain ⟨second, parsedBack, rfl⟩ := parse_of_scan readBack apartBack
  exact ⟨first, second, parsedFront, parsedBack, joins.names, joins.expands⟩

/-- A template behind a character it may be cut at is a template, and expands to the character and
its expansion. -/
theorem parse_behind {c : Char} (separates : Separates c) {back : Text} {second : UriTemplate}
    (parsed : parse back = .ok second) :
    ∃ template, parse (c :: back) = .ok template ∧
      template.variableNames = second.variableNames ∧
      ∀ bindings, template.expand bindings = (second.expand bindings).map fun right => c :: right := by
  obtain ⟨read, apart, _⟩ := (parse_eq_ok_iff back second).mp parsed
  rcases scan_run back with ⟨first, after, reads⟩ | ⟨refusal, refused⟩
  · have parts : literal first ++ after = second.parts := by
      rw [reads []] at read
      exact Except.ok.inj read
    have whole : scan [] (c :: back) = .ok (.lit (c :: first) :: after) := by
      rw [scan, if_neg separates.1, List.nil_append, reads [c]]
      rfl
    have joins : Joins c (.lit (c :: first) :: after) [] second.parts :=
      ⟨[], [], first, after, rfl, parts.symm, rfl⟩
    have tail : adjacent after = false := by
      rw [Joins.adjacent_eq_chain] at apart ⊢
      rw [← parts, List.map_append] at apart
      exact apart.infix ⟨(literal first).map Part.isVar, [], by rw [List.append_nil]⟩
    have apart : adjacent (.lit (c :: first) :: after) = false := by
      cases after with
      | nil => rfl
      | cons next rest => rw [adjacent, Part.isVar, Bool.false_and, Bool.false_or, tail]
    obtain ⟨template, parsed, same⟩ := parse_of_scan whole apart
    rw [← same] at joins
    refine ⟨template, parsed, joins.names, fun bindings => (joins.expands bindings).trans ?_⟩
    rfl
  · rw [refused] at read
    cases read

end Ikigai.UriTemplate
