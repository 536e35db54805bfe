import Ikigai.UriTemplate

/-!
# Matching inverts expansion

The matcher as it runs: by position, with the spans captured so far and the positions already
shown not to match. It finds a reading whenever there is one, and of all readings the leftmost:
each variable in order takes the shortest run that leaves something the rest can match. The captures
are then filed under their names, and a name used twice keeps what it captured last, so
expanding them gives back what was matched only where every name is used once.
-/

namespace Ikigai

namespace UriTemplate

/-- What a match has captured, and the parts and positions shown not to match. -/
structure Search where
  captures : List (Nat × Nat)
  failed : List (Nat × Nat)
deriving DecidableEq, Repr

namespace Search

def push (search : Search) (span : Nat × Nat) : Search :=
  { search with captures := search.captures ++ [span] }

def pop (search : Search) : Search := { search with captures := search.captures.dropLast }

def fail (search : Search) (place : Nat × Nat) : Search :=
  { search with failed := place :: search.failed }

/-- What a part and position came to: a miss is remembered. -/
def settle (place : Nat × Nat) (result : Search × Bool) : Search × Bool :=
  if result.2 then (result.1, true) else (result.1.fail place, false)

@[simp] theorem push_captures (search : Search) (span : Nat × Nat) :
    (search.push span).captures = search.captures ++ [span] := rfl

@[simp] theorem push_failed (search : Search) (span : Nat × Nat) :
    (search.push span).failed = search.failed := rfl

@[simp] theorem pop_captures (search : Search) :
    search.pop.captures = search.captures.dropLast := rfl

@[simp] theorem pop_failed (search : Search) : search.pop.failed = search.failed := rfl

@[simp] theorem fail_captures (search : Search) (place : Nat × Nat) :
    (search.fail place).captures = search.captures := rfl

@[simp] theorem fail_failed (search : Search) (place : Nat × Nat) :
    (search.fail place).failed = place :: search.failed := rfl

end Search

/-- Try every place from here on where a literal stands, overlapping ones too, leftmost first. -/
def tryPlaces (next : Text) (attempt : Nat → Search → Search × Bool) :
    Text → Nat → Search → Search × Bool
  | [], _, search => (search, false)
  | c :: rest, place, search =>
    if Text.startsWith (c :: rest) next then
      match attempt place search with
      | (found, true) => (found, true)
      | (missed, false) => tryPlaces next attempt rest (place + 1) missed
    else tryPlaces next attempt rest (place + 1) search

/-- `match_from`: match the parts from number `i` on against the input from a position on. -/
def matchAt (empty : List Text) (input : Text) :
    List Part → Nat → Nat → Search → Search × Bool
  | [], _, pos, search => (search, pos == input.length)
  | part :: rest, i, pos, search =>
    if (i, pos) ∈ search.failed then (search, false)
    else
      Search.settle (i, pos) <|
        match part with
        | .lit text =>
          if Text.startsWith (input.drop pos) text then
            matchAt empty input rest (i + 1) (pos + text.length) search
          else (search, false)
        | .var name =>
          match rest with
          | .lit next :: _ =>
            tryPlaces next
              (fun place search =>
                if pos < place ∨ name ∈ empty then
                  match matchAt empty input rest (i + 1) place (search.push (pos, place)) with
                  | (found, true) => (found, true)
                  | (missed, false) => (missed.pop, false)
                else (search, false))
              (input.drop pos) pos search
          | _ =>
            -- a final variable takes what is left
            if pos == input.length && name ∉ empty then (search, false)
            else (search.push (pos, input.length), true)

/-- The spans a match captures, in order. -/
def spans (template : UriTemplate) (input : Text) (empty : List Text) :
    Option (List (Nat × Nat)) :=
  match matchAt empty input template.parts 0 0 ⟨[], []⟩ with
  | (found, true) => some found.captures
  | (_, false) => none

def slice (input : Text) (span : Nat × Nat) : Text := (input.drop span.1).take (span.2 - span.1)

/-- `match_with_empty`: the captures under their names. -/
def matchSearching (template : UriTemplate) (input : Text) (empty : List Text) :
    Option (List (Text × Text)) :=
  (template.spans input empty).map fun spans =>
    (template.variableNames.zip (spans.map (slice input))).foldl bind []

/-- `match_str`. -/
def matchStr (template : UriTemplate) (input : Text) : Option (List (Text × Text)) :=
  template.matchSearching input []

/-- A search over items that finds the same at each finds the same. -/
theorem find_some_congr {α β : Type} {items : List α} {f g : α → Option β}
    (same : ∀ item ∈ items, f item = g item) : items.findSome? f = items.findSome? g := by
  induction items with
  | nil => rfl
  | cons item rest ih =>
    rw [List.findSome?_cons, List.findSome?_cons, same item List.mem_cons_self,
      ih fun other member => same other (List.mem_cons_of_mem _ member)]

/-- Every way to cut what follows a front, the shortest front first. -/
def cutsFrom (front : Text) : Text → List (Text × Text)
  | [] => [(front, [])]
  | c :: rest => (front, c :: rest) :: cutsFrom (front ++ [c]) rest

/-- The cuts of a text behind what was taken: none taken first, then one character more each time.
-/
theorem cuts_from_eq (front rest : Text) :
    cutsFrom front rest = (front, rest) :: (cuts rest).map fun cut => (front ++ cut.1, cut.2) := by
  induction rest generalizing front with
  | nil => rfl
  | cons c rest ih => simp [cutsFrom, cuts, ih, Function.comp_def]

/-- What follows a front of what is left stands where the front ends. -/
theorem rest_of_cut {input front back : Text} {pos : Nat} (inside : pos ≤ input.length)
    (whole : input.drop pos = front ++ back) :
    back = input.drop (pos + front.length) ∧ pos + front.length ≤ input.length := by
  have width := congrArg List.length whole
  rw [List.length_append, List.length_drop] at width
  exact ⟨by rw [← List.drop_drop, whole, List.drop_left], by omega⟩

/-- What a capture and the rest yield where the input is cut. -/
def yieldAt (empty : List Text) (name : Text) (rest : List Part) (cut : Text × Text) :
    Option (List Text) :=
  if cut.1 ≠ [] ∨ name ∈ empty then (matchFrom empty rest cut.2).map (cut.1 :: ·) else none

/-- A literal that the input does not start with matches nothing. -/
theorem match_from_lit_none (empty : List Text) (text : Text) (rest : List Part) (input : Text)
    (other : Text.startsWith input text = false) :
    matchFrom empty (.lit text :: rest) input = none := by
  rw [matchFrom, Text.stripPrefix, other, if_neg Bool.false_ne_true]

/-- A variable before a literal tries every cut, the shortest value first. -/
theorem match_from_var (empty : List Text) (name next : Text) (rest : List Part) (input : Text) :
    matchFrom empty (.var name :: .lit next :: rest) input =
      (cutsFrom [] input).findSome? (yieldAt empty name (.lit next :: rest)) := by
  have tried : ∀ cut : Text × Text, cut.1 ≠ [] ∨ name ∈ empty →
      (if cut.2.startsWith next then
        (matchFrom empty (.lit next :: rest) cut.2).map (cut.1 :: ·) else none) =
      yieldAt empty name (.lit next :: rest) cut := by
    intro cut some
    rw [yieldAt, if_pos some]
    split
    · rfl
    · rename_i other
      rw [match_from_lit_none _ _ _ _ (Bool.eq_false_iff.mpr other), Option.map_none]
  have longer : ∀ cut ∈ cuts input, cut.1 ≠ [] := by
    intro cut member
    cases input with
    | nil => cases member
    | cons c rest =>
      simp only [cuts, List.mem_cons, List.mem_map] at member
      rcases member with rfl | ⟨other, _, rfl⟩ <;> simp
  rw [matchFrom, cuts_from_eq]
  simp only [List.nil_append, List.map_id']
  rw [captures]
  split
  · rename_i allowed
    exact find_some_congr fun cut _ => tried cut (.inr allowed)
  · rename_i refused
    have none : yieldAt empty name (.lit next :: rest) ([], input) = none := by
      rw [yieldAt, if_neg (by simpa using refused)]
    rw [List.findSome?_cons, none]
    exact find_some_congr fun cut member => tried cut (.inl (longer cut member))

/-- Where the captures of some parts stand, from a position on. -/
def place : List Part → Nat → List Text → List (Nat × Nat)
  | [], _, _ => []
  | .lit text :: rest, pos, texts => place rest (pos + text.length) texts
  | .var _ :: _, _, [] => []
  | .var _ :: rest, pos, text :: texts =>
    (pos, pos + text.length) :: place rest (pos + text.length) texts

/-- Every remembered part and position does not match. -/
def Sound (empty : List Text) (input : Text) (all : List Part) (failed : List (Nat × Nat)) :
    Prop :=
  ∀ i pos, (i, pos) ∈ failed → matchFrom empty (all.drop i) (input.drop pos) = none

/-- A search that was asked for the captures of some parts from a position on found the expected
ones, or none and left the captures as they were. -/
structure Answers (empty : List Text) (input : Text) (all : List Part) (search : Search)
    (expected : Option (List (Nat × Nat))) (result : Search × Bool) : Prop where
  found : result.2 = expected.isSome
  captures : result.1.captures = search.captures ++ expected.getD []
  sound : Sound empty input all result.1.failed

/-- A search that fails leaves places that are failures. -/
theorem Answers.missed {empty : List Text} {input : Text} {all : List Part} {search : Search}
    (sound : Sound empty input all search.failed) :
    Answers empty input all search none (search, false) :=
  ⟨rfl, by rw [Option.getD_none, List.append_nil], sound⟩

theorem place_nil (parts : List Part) (pos : Nat) (var : ∀ text rest, parts ≠ .lit text :: rest) :
    place parts pos [] = [] := by
  cases parts with
  | nil => rfl
  | cons part rest =>
    cases part with
    | lit text => exact absurd rfl (var text rest)
    | var name => rfl

/-- Trying places is trying cuts, where each try answers for its own cut. The induction is on
what is left of the input: a try that misses leaves the captures as they were. -/
theorem try_places_answers {empty : List Text} {input : Text} {all : List Part} {next : Text}
    {attempt : Nat → Search → Search × Bool} {expected : Text × Text → Option (List (Nat × Nat))}
    {pos : Nat} (long : next ≠ [])
    (absent : ∀ cut, Text.startsWith cut.2 next = false → expected cut = none)
    (answers : ∀ value back search, value ++ back = input.drop pos →
      Sound empty input all search.failed →
        Answers empty input all search (expected (value, back))
          (attempt (pos + value.length) search))
    (value rest : Text) (search : Search) (whole : value ++ rest = input.drop pos)
    (sound : Sound empty input all search.failed) :
    Answers empty input all search ((cutsFrom value rest).findSome? expected)
      (tryPlaces next attempt rest (pos + value.length) search) := by
  induction rest generalizing value search with
  | nil =>
    have none : expected (value, []) = none := by
      refine absent _ ?_
      cases next with
      | nil => exact absurd rfl long
      | cons => rfl
    rw [cutsFrom, List.findSome?_cons, none]
    exact .missed sound
  | cons c rest ih =>
    have further : (value ++ [c]) ++ rest = input.drop pos := by
      rw [← whole, List.append_assoc]
      rfl
    have width : pos + value.length + 1 = pos + (value ++ [c]).length := by
      rw [List.length_append, List.length_singleton, Nat.add_assoc]
    rw [cutsFrom, List.findSome?_cons, tryPlaces, width]
    by_cases stands : Text.startsWith (c :: rest) next = true
    · have tried := answers value (c :: rest) search whole sound
      rw [if_pos stands]
      rcases result : attempt (pos + value.length) search with ⟨after, found⟩
      rw [result] at tried
      cases expects : expected (value, c :: rest) with
      | some spans =>
        rw [expects] at tried
        have true_ : found = true := tried.found
        subst true_
        exact tried
      | none =>
        rw [expects] at tried
        have false_ : found = false := tried.found
        subst false_
        have kept : after.captures = search.captures := by
          have captures := tried.captures
          rwa [Option.getD_none, List.append_nil] at captures
        have later := ih (value ++ [c]) after further tried.sound
        exact ⟨later.found, by rw [later.captures, kept], later.sound⟩
    · rw [if_neg stands, absent (value, c :: rest) (Bool.eq_false_iff.mpr stands)]
      exact ih (value ++ [c]) search further sound

/-- A part and position that did not match is remembered, and one that did is not. -/
theorem Answers.remembered {empty : List Text} {input : Text} {all : List Part} {search : Search}
    {expected : Option (List (Nat × Nat))} {result : Search × Bool} {i pos : Nat}
    (answers : Answers empty input all search expected result)
    (missed : expected = none → matchFrom empty (all.drop i) (input.drop pos) = none) :
    Answers empty input all search expected
      (Search.settle (i, pos) result) := by
  rw [Search.settle]
  split
  · rename_i found
    exact ⟨found ▸ answers.found, answers.captures, answers.sound⟩
  · rename_i lost
    have none : expected = none := by
      rw [answers.found] at lost
      exact Option.not_isSome_iff_eq_none.mp lost
    refine ⟨by rw [none]; rfl, answers.captures, ?_⟩
    intro i' pos' member
    rw [Search.fail_failed, List.mem_cons] at member
    rcases member with same | member
    · rw [Prod.mk.injEq] at same
      rw [same.1, same.2]
      exact missed none
    · exact answers.sound i' pos' member

/-- A final variable takes what is left. -/
theorem final_answers {empty : List Text} {input : Text} {all : List Part} (name : Text)
    (rest : List Part) (pos : Nat) (search : Search) (inside : pos ≤ input.length)
    (sound : Sound empty input all search.failed)
    (last : ∀ text more, rest ≠ .lit text :: more) :
    Answers empty input all search
      ((matchFrom empty (.var name :: rest) (input.drop pos)).map (place (.var name :: rest) pos))
      (if pos == input.length && name ∉ empty then (search, false)
        else (search.push (pos, input.length), true)) := by
  have same : (input.drop pos).isEmpty = (pos == input.length) := by
    rw [Bool.eq_iff_iff, List.isEmpty_iff, List.drop_eq_nil_iff, beq_iff_eq]
    omega
  have matched : matchFrom empty (.var name :: rest) (input.drop pos) =
      (if pos == input.length && name ∉ empty then none else some [input.drop pos]) := by
    rw [← same]
    cases rest with
    | nil => rfl
    | cons part more =>
      cases part with
      | var other => rfl
      | lit text => exact absurd rfl (last text more)
  rw [matched]
  split
  · exact .missed sound
  · have width : pos + (input.drop pos).length = input.length := by
      rw [List.length_drop]
      omega
    refine ⟨rfl, ?_, sound⟩
    rw [Option.map_some, place, place_nil rest _ last, width]
    rfl

/-- The captures of one try stand behind the span it captures. -/
theorem attempt_answers {empty : List Text} {input : Text} {all : List Part} {name : Text}
    {rest : List Part} {pos : Nat} {search : Search} {value back : Text}
    {matched : Search → Search × Bool}
    (sound : Sound empty input all search.failed)
    (answers : ∀ search, Sound empty input all search.failed →
      Answers empty input all search
        ((matchFrom empty rest back).map (place rest (pos + value.length))) (matched search)) :
    Answers empty input all search
      ((yieldAt empty name rest (value, back)).map (place (.var name :: rest) pos))
      (if pos < pos + value.length ∨ name ∈ empty then
        match matched (search.push (pos, pos + value.length)) with
        | (found, true) => (found, true)
        | (missed, false) => (missed.pop, false)
      else (search, false)) := by
  have same : pos < pos + value.length ↔ value ≠ [] := by
    rw [← List.length_pos_iff]
    omega
  simp only [same, yieldAt]
  split
  · have tried := answers (search.push (pos, pos + value.length)) sound
    rcases result : matched (search.push (pos, pos + value.length)) with ⟨after, found⟩
    rw [result] at tried
    cases expects : matchFrom empty rest back with
    | some texts =>
      rw [expects] at tried
      have true_ : found = true := tried.found
      subst true_
      refine ⟨rfl, ?_, tried.sound⟩
      have captures := tried.captures
      rw [Search.push_captures] at captures
      simpa [place] using captures
    | none =>
      rw [expects] at tried
      have false_ : found = false := tried.found
      subst false_
      refine ⟨rfl, ?_, tried.sound⟩
      have captures := tried.captures
      rw [Search.push_captures, Option.map_none, Option.getD_none, List.append_nil] at captures
      change after.captures.dropLast = search.captures ++ []
      rw [captures, List.dropLast_concat, List.append_nil]
  · exact .missed sound

/-- The matcher with its memory finds the captures that the matcher without one finds. The
induction is on the parts left. -/
theorem match_at_answers (empty : List Text) (input : Text) (all parts : List Part)
    (plain : ∀ part ∈ parts, part.Plain) (i pos : Nat) (search : Search) (left : all.drop i = parts)
    (inside : pos ≤ input.length) (sound : Sound empty input all search.failed) :
    Answers empty input all search
      ((matchFrom empty parts (input.drop pos)).map (place parts pos))
      (matchAt empty input parts i pos search) := by
  induction parts generalizing i pos search with
  | nil =>
    rw [matchAt, matchFrom]
    by_cases done : pos = input.length
    · subst done
      rw [List.drop_length, if_pos (by rfl), beq_self_eq_true]
      exact ⟨rfl, by simp [place], sound⟩
    · have more : (input.drop pos).isEmpty = false := by
        rw [List.isEmpty_eq_false_iff, ne_eq, List.drop_eq_nil_iff]
        omega
      rw [more, if_neg Bool.false_ne_true, Option.map_none, beq_false_of_ne done]
      exact .missed sound
  | cons part rest ih =>
    have plainRest : ∀ other ∈ rest, other.Plain := fun other member =>
      plain other (List.mem_cons_of_mem _ member)
    have leftRest : all.drop (i + 1) = rest := by
      rw [← List.drop_drop, left]
      rfl
    unfold matchAt
    by_cases known : (i, pos) ∈ search.failed
    · have none := sound i pos known
      rw [left] at none
      rw [if_pos known, none]
      exact .missed sound
    rw [if_neg known]
    refine Answers.remembered ?_ fun none => by rw [left]; exact Option.map_eq_none_iff.mp none
    cases part with
    | lit text =>
      have placed : place (.lit text :: rest) pos = place rest (pos + text.length) := rfl
      dsimp only
      by_cases stands : Text.startsWith (input.drop pos) text = true
      · obtain ⟨tail, split⟩ := (Text.starts_with_iff _ _).mp stands
        obtain ⟨tail_eq, within⟩ := rest_of_cut inside split.symm
        have matched : matchFrom empty (.lit text :: rest) (input.drop pos) =
            matchFrom empty rest (input.drop (pos + text.length)) := by
          rw [matchFrom, (Text.strip_prefix_eq_some _ _ tail).mpr split.symm, tail_eq]
        rw [if_pos stands, matched, placed]
        exact ih plainRest (i + 1) (pos + text.length) search leftRest within sound
      · rw [if_neg stands, match_from_lit_none _ _ _ _ (Bool.eq_false_iff.mpr stands)]
        exact .missed sound
    | var name =>
      cases rest with
      | nil => exact final_answers name [] pos search inside sound fun _ _ same => by cases same
      | cons following rest =>
        cases following with
        | var other =>
          exact final_answers name _ pos search inside sound fun _ _ same => by cases same
        | lit next =>
          rw [match_from_var, List.map_findSome?]
          have long := (plainRest (.lit next) List.mem_cons_self).1
          refine try_places_answers long ?_ ?_ [] (input.drop pos) search rfl sound
          · intro cut other
            have none : yieldAt empty name (.lit next :: rest) cut = none := by
              rw [yieldAt, match_from_lit_none _ _ _ _ other, Option.map_none, ite_self]
            rw [Function.comp_apply, none, Option.map_none]
          · intro value back search whole sound
            obtain ⟨rfl, within⟩ := rest_of_cut inside whole.symm
            refine attempt_answers sound fun search sound => ?_
            exact ih plainRest (i + 1) (pos + value.length) search leftRest within sound

/-- The spans found are the pieces of the backtracking match, by place. -/
theorem spans_eq (template : UriTemplate) (input : Text) (empty : List Text) :
    template.spans input empty =
      (matchFrom empty template.parts input).map (place template.parts 0) := by
  have answers := match_at_answers empty input template.parts template.parts template.plain 0 0
    ⟨[], []⟩ rfl (Nat.zero_le _) (fun _ _ member => by cases member)
  rw [List.drop_zero] at answers
  rw [spans]
  rcases result : matchAt empty input template.parts 0 0 ⟨[], []⟩ with ⟨found, matched⟩
  rw [result] at answers
  cases expects : (matchFrom empty template.parts input).map (place template.parts 0) with
  | none =>
    rw [expects] at answers
    have false_ : matched = false := answers.found
    subst false_
    rfl
  | some spans =>
    rw [expects] at answers
    have true_ : matched = true := answers.found
    subst true_
    exact congrArg some answers.captures

/-- The parts with a text for every occurrence of a variable, in order. -/
def fill : List Part → List Text → Option Text
  | [], [] => some []
  | .lit text :: rest, texts => (fill rest texts).map (text ++ ·)
  | .var _ :: rest, text :: texts => (fill rest texts).map (text ++ ·)
  | _, _ => none

/-- Some texts, none of them empty, fill the parts to this input. -/
def Readable (parts : List Part) (input : Text) : Prop :=
  ∃ texts, (∀ text ∈ texts, text ≠ []) ∧ fill parts texts = some input

/-- The spans from a position on are those of a reading in which each variable in order takes
the shortest run that leaves what the rest can be read as. -/
def Leftmost (input : Text) : List Part → Nat → List (Nat × Nat) → Prop
  | [], pos, spans => pos = input.length ∧ spans = []
  | .lit text :: rest, pos, spans =>
    text <+: input.drop pos ∧ Leftmost input rest (pos + text.length) spans
  | .var _ :: rest, pos, spans =>
    ∃ stop more, spans = (pos, stop) :: more ∧ pos < stop ∧ stop ≤ input.length ∧
      Leftmost input rest stop more ∧
      ∀ place, pos < place → place < stop → ¬Readable rest (input.drop place)

/-- Only the empty text is read by no parts. -/
theorem readable_nil (input : Text) : Readable [] input ↔ input = [] := by
  constructor
  · rintro ⟨texts, _, filled⟩
    cases texts with
    | nil => exact (Option.some.inj filled).symm
    | cons => cases filled
  · rintro rfl
    exact ⟨[], by simp, rfl⟩

/-- A literal is read off the front. -/
theorem readable_lit (text : Text) (rest : List Part) (input : Text) :
    Readable (.lit text :: rest) input ↔ ∃ tail, input = text ++ tail ∧ Readable rest tail := by
  constructor
  · rintro ⟨texts, some, filled⟩
    rw [fill, Option.map_eq_some_iff] at filled
    obtain ⟨tail, read, rfl⟩ := filled
    exact ⟨tail, rfl, texts, some, read⟩
  · rintro ⟨tail, rfl, texts, some, read⟩
    exact ⟨texts, some, by rw [fill, read, Option.map_some]⟩

/-- A variable reads any value but the empty one. -/
theorem readable_var (name : Text) (rest : List Part) (input : Text) :
    Readable (.var name :: rest) input ↔
      ∃ value tail, value ≠ [] ∧ input = value ++ tail ∧ Readable rest tail := by
  constructor
  · rintro ⟨texts, some, filled⟩
    cases texts with
    | nil => cases filled
    | cons value texts =>
      rw [fill, Option.map_eq_some_iff] at filled
      obtain ⟨tail, read, rfl⟩ := filled
      exact ⟨value, tail, some value List.mem_cons_self, rfl, texts,
        fun text member => some text (List.mem_cons_of_mem _ member), read⟩
  · rintro ⟨value, tail, long, rfl, texts, some, read⟩
    refine ⟨value :: texts, ?_, by rw [fill, read, Option.map_some]⟩
    rw [List.forall_mem_cons]
    exact ⟨long, some⟩

/-- A cut is any value and what it leaves. -/
theorem mem_cuts_from (front rest : Text) (cut : Text × Text) :
    cut ∈ cutsFrom front rest ↔ ∃ value, cut.1 = front ++ value ∧ rest = value ++ cut.2 := by
  induction rest generalizing front with
  | nil =>
    rw [cutsFrom, List.mem_singleton]
    constructor
    · rintro rfl
      exact ⟨[], by simp, rfl⟩
    · rintro ⟨value, opens, closes⟩
      obtain ⟨rfl, none⟩ := List.append_eq_nil_iff.mp closes.symm
      exact Prod.ext (by rw [opens, List.append_nil]) none
  | cons c rest ih =>
    rw [cutsFrom, List.mem_cons, ih]
    constructor
    · rintro (rfl | ⟨value, opens, closes⟩)
      · exact ⟨[], by simp, rfl⟩
      · exact ⟨c :: value, by rw [opens, List.append_assoc]; rfl, by rw [closes]; rfl⟩
    · rintro ⟨value, opens, closes⟩
      cases value with
      | nil => exact .inl (Prod.ext (by rw [opens, List.append_nil]) closes.symm)
      | cons d value =>
        rw [List.cons_append, List.cons.injEq] at closes
        obtain ⟨rfl, closes⟩ := closes
        exact .inr ⟨value, by rw [opens, List.append_assoc]; rfl, closes⟩

/-- The first cut that yields something is the shortest. -/
theorem first_cut {β : Type} (f : Text × Text → Option β) (front rest : Text) (result : β)
    (found : (cutsFrom front rest).findSome? f = some result) :
    ∃ value back, rest = value ++ back ∧ f (front ++ value, back) = some result ∧
      ∀ less other, rest = less ++ other → less.length < value.length →
        f (front ++ less, other) = none := by
  induction rest generalizing front with
  | nil =>
    rw [cutsFrom, List.findSome?_singleton] at found
    exact ⟨[], [], rfl, by rwa [List.append_nil], fun less other _ shorter => by simp at shorter⟩
  | cons c rest ih =>
    rw [cutsFrom, List.findSome?_cons] at found
    cases first : f (front, c :: rest) with
    | some other =>
      rw [first] at found
      exact ⟨[], c :: rest, rfl, by rw [List.append_nil, first]; exact found,
        fun less other _ shorter => by simp at shorter⟩
    | none =>
      rw [first] at found
      obtain ⟨value, back, rfl, yields, shortest⟩ := ih (front ++ [c]) found
      refine ⟨c :: value, back, rfl, by rwa [List.append_assoc] at yields, ?_⟩
      intro less other cut shorter
      cases less with
      | nil =>
        rw [List.nil_append] at cut
        rw [List.append_nil, ← cut]
        exact first
      | cons d less =>
        rw [List.cons_append, List.cons.injEq] at cut
        obtain ⟨rfl, cut⟩ := cut
        have none := shortest less other cut (by simpa using shorter)
        rwa [List.append_assoc] at none

/-- What follows the first part of a template has no two variables side by side either. -/
theorem adjacent_tail (part : Part) (rest : List Part) (apart : adjacent (part :: rest) = false) :
    adjacent rest = false := by
  cases rest with
  | nil => rfl
  | cons second rest => exact (Bool.or_eq_false_iff.mp apart).2

/-- After a variable comes a literal or nothing. -/
theorem after_var (name : Text) (rest : List Part) (apart : adjacent (.var name :: rest) = false) :
    rest = [] ∨ ∃ next more, rest = .lit next :: more := by
  cases rest with
  | nil => exact .inl rfl
  | cons second rest =>
    cases second with
    | lit next => exact .inr ⟨next, rest, rfl⟩
    | var other => simp [adjacent, Part.isVar] at apart

/-- What a capture followed by a literal yields, where it yields something. -/
theorem match_from_var_some {empty : List Text} {name next : Text} {more : List Part} {input : Text}
    {texts : List Text}
    (matched : matchFrom empty (.var name :: .lit next :: more) input = some texts) :
    ∃ value back texts', input = value ++ back ∧ (value ≠ [] ∨ name ∈ empty) ∧
      matchFrom empty (.lit next :: more) back = some texts' ∧ texts = value :: texts' ∧
      ∀ less other, input = less ++ other → less ≠ [] → less.length < value.length →
        matchFrom empty (.lit next :: more) other = none := by
  rw [match_from_var] at matched
  obtain ⟨value, back, whole, yields, shortest⟩ := first_cut _ _ _ _ matched
  rw [yieldAt, List.nil_append] at yields
  split at yields
  · rename_i allowed
    obtain ⟨texts', read, rfl⟩ := Option.map_eq_some_iff.mp yields
    refine ⟨value, back, texts', whole, allowed, read, rfl, ?_⟩
    intro less other cut long shorter
    have none := shortest less other cut shorter
    rw [yieldAt, List.nil_append, if_pos (.inl long)] at none
    exact Option.map_eq_none_iff.mp none
  · cases yields

/-- A literal that matches leaves a match of the rest. -/
theorem match_from_lit_some {empty : List Text} {text : Text} {rest : List Part} {input : Text}
    {texts : List Text} (matched : matchFrom empty (.lit text :: rest) input = some texts) :
    ∃ tail, input = text ++ tail ∧ matchFrom empty rest tail = some texts := by
  rw [matchFrom] at matched
  split at matched
  · rename_i tail stripped
    exact ⟨tail, (Text.strip_prefix_eq_some _ _ _).mp stripped, matched⟩
  · cases matched

/-- A variable at the end takes all that is left. -/
theorem match_from_last_some {empty : List Text} {name : Text} {input : Text} {texts : List Text}
    (matched : matchFrom empty [.var name] input = some texts) :
    (input ≠ [] ∨ name ∈ empty) ∧ texts = [input] := by
  rw [matchFrom] at matched
  · split at matched
    · cases matched
    · rename_i allowed
      refine ⟨?_, (Option.some.inj matched).symm⟩
      by_contra neither
      rw [not_or, not_not] at neither
      exact allowed (by rw [neither.1, decide_eq_true neither.2]; rfl)
  · exact fun _ _ same => by cases same

/-- What is captured fills the parts to the input. -/
theorem fill_of_match {empty : List Text} {parts : List Part} {input : Text} {texts : List Text}
    (apart : adjacent parts = false) (matched : matchFrom empty parts input = some texts) :
    fill parts texts = some input := by
  induction parts generalizing input texts with
  | nil =>
    rw [matchFrom] at matched
    split at matched
    · rename_i done
      rw [← Option.some.inj matched, List.isEmpty_iff.mp done]
      rfl
    · cases matched
  | cons part rest ih =>
    have apartRest := adjacent_tail part rest apart
    cases part with
    | lit text =>
      obtain ⟨tail, rfl, read⟩ := match_from_lit_some matched
      rw [fill, ih apartRest read, Option.map_some]
    | var name =>
      rcases after_var name rest apart with rfl | ⟨next, more, rfl⟩
      · obtain ⟨_, rfl⟩ := match_from_last_some matched
        rw [fill, fill, Option.map_some, List.append_nil]
      · obtain ⟨value, back, texts', rfl, _, read, rfl, _⟩ := match_from_var_some matched
        rw [fill, ih apartRest read, Option.map_some]

/-- Nothing is captured exactly where the parts cannot be read as the input. -/
theorem match_from_complete {parts : List Part} {input : Text} (apart : adjacent parts = false) :
    (matchFrom [] parts input).isSome ↔ Readable parts input := by
  induction parts generalizing input with
  | nil =>
    rw [readable_nil, matchFrom]
    cases input <;> simp
  | cons part rest ih =>
    have apartRest := adjacent_tail part rest apart
    cases part with
    | lit text =>
      rw [readable_lit, Option.isSome_iff_exists]
      constructor
      · rintro ⟨texts, matched⟩
        obtain ⟨tail, rfl, read⟩ := match_from_lit_some matched
        exact ⟨tail, rfl, (ih apartRest).mp (by rw [read]; rfl)⟩
      · rintro ⟨tail, rfl, readable⟩
        obtain ⟨texts, read⟩ := Option.isSome_iff_exists.mp ((ih apartRest).mpr readable)
        exact ⟨texts, by rw [matchFrom, (Text.strip_prefix_eq_some _ _ tail).mpr rfl]; exact read⟩
    | var name =>
      rw [readable_var]
      rcases after_var name rest apart with rfl | ⟨next, more, rfl⟩
      · simp only [readable_nil]
        constructor
        · intro found
          obtain ⟨texts, matched⟩ := Option.isSome_iff_exists.mp found
          obtain ⟨long, _⟩ := match_from_last_some matched
          exact ⟨input, [], by simpa using long, by simp, rfl⟩
        · rintro ⟨value, tail, long, rfl, rfl⟩
          cases value with
          | nil => exact absurd rfl long
          | cons => rfl
      · rw [match_from_var, List.findSome?_isSome_iff]
        constructor
        · rintro ⟨⟨value, back⟩, member, yields⟩
          obtain ⟨value', opens, whole⟩ := (mem_cuts_from _ _ _).mp member
          rw [List.nil_append] at opens
          dsimp only at opens whole
          subst opens
          rw [yieldAt] at yields
          split at yields
          · rename_i allowed
            rw [Option.isSome_map] at yields
            exact ⟨value, back, by simpa using allowed, whole, (ih apartRest).mp yields⟩
          · cases yields
        · rintro ⟨value, tail, long, whole, readable⟩
          refine ⟨(value, tail), (mem_cuts_from _ _ _).mpr ⟨value, rfl, whole⟩, ?_⟩
          rw [yieldAt, if_pos (.inl long), Option.isSome_map]
          exact (ih apartRest).mpr readable

/-- What is captured stands where the leftmost reading has it. -/
theorem leftmost_of_match {parts : List Part} {input : Text} {pos : Nat} {texts : List Text}
    (apart : adjacent parts = false) (inside : pos ≤ input.length)
    (matched : matchFrom [] parts (input.drop pos) = some texts) :
    Leftmost input parts pos (place parts pos texts) := by
  induction parts generalizing pos texts with
  | nil =>
    rw [matchFrom] at matched
    split at matched
    · rename_i done
      rw [List.isEmpty_iff, List.drop_eq_nil_iff] at done
      exact ⟨by omega, rfl⟩
    · cases matched
  | cons part rest ih =>
    have apartRest := adjacent_tail part rest apart
    cases part with
    | lit text =>
      obtain ⟨tail, whole, read⟩ := match_from_lit_some matched
      obtain ⟨rfl, within⟩ := rest_of_cut inside whole
      exact ⟨⟨_, whole.symm⟩, ih apartRest within read⟩
    | var name =>
      rcases after_var name rest apart with rfl | ⟨next, more, rfl⟩
      · obtain ⟨long, rfl⟩ := match_from_last_some matched
        have width : pos + (input.drop pos).length = input.length := by
          rw [List.length_drop]
          omega
        have further : pos < input.length := by simpa using long
        refine ⟨input.length, [], by rw [place, place, width], further, Nat.le_refl _,
          ⟨rfl, rfl⟩, ?_⟩
        intro between _ before readable
        rw [readable_nil, List.drop_eq_nil_iff] at readable
        omega
      · obtain ⟨value, back, texts', whole, long, read, rfl, shortest⟩ :=
          match_from_var_some matched
        obtain ⟨rfl, within⟩ := rest_of_cut inside whole
        have some : 0 < value.length := List.length_pos_iff.mpr (by simpa using long)
        refine ⟨pos + value.length, _, rfl, by omega, within, ih apartRest within read, ?_⟩
        intro between behind before readable
        have cut : input.drop pos = (input.drop pos).take (between - pos) ++ input.drop between := by
          have joined := (List.take_append_drop (between - pos) (input.drop pos)).symm
          rwa [List.drop_drop, Nat.add_sub_cancel' (Nat.le_of_lt behind)] at joined
        have width : ((input.drop pos).take (between - pos)).length = between - pos := by
          rw [List.length_take, List.length_drop]
          omega
        have none := shortest _ _ cut (List.ne_nil_of_length_pos (by omega)) (by omega)
        rw [← match_from_complete apartRest, none] at readable
        cases readable

/-- The spans hold what was captured. -/
theorem slice_place {parts : List Part} {input : Text} {pos : Nat} {texts : List Text}
    (inside : pos ≤ input.length) (filled : fill parts texts = some (input.drop pos)) :
    (place parts pos texts).map (slice input) = texts := by
  induction parts generalizing pos texts with
  | nil =>
    cases texts with
    | nil => rfl
    | cons => cases filled
  | cons part rest ih =>
    cases part with
    | lit text =>
      rw [fill, Option.map_eq_some_iff] at filled
      obtain ⟨tail, read, whole⟩ := filled
      obtain ⟨rfl, within⟩ := rest_of_cut inside whole.symm
      exact ih within read
    | var name =>
      cases texts with
      | nil => cases filled
      | cons text texts =>
        rw [fill, Option.map_eq_some_iff] at filled
        obtain ⟨tail, read, whole⟩ := filled
        obtain ⟨rfl, within⟩ := rest_of_cut inside whole.symm
        rw [place, List.map_cons, ih within read, slice, ← whole, Nat.add_sub_cancel_left,
          List.take_left]

/-- The matcher with its memory gives what the matcher without one gives. -/
theorem match_searching_eq (template : UriTemplate) (input : Text) (empty : List Text)
    (apart : adjacent template.parts = false) :
    template.matchSearching input empty = template.matchWithEmpty input empty := by
  rw [matchSearching, matchWithEmpty, spans_eq, Option.map_map]
  cases matched : matchFrom empty template.parts input with
  | none => rfl
  | some texts =>
    have filled := fill_of_match apart matched
    have sliced := slice_place (Nat.zero_le input.length) filled
    rw [Option.map_some, Option.map_some, Function.comp_apply, sliced]

/-- What a name is bound to. -/
def bound (bindings : List (Text × Text)) (name : Text) : Option Text :=
  (bindings.find? fun entry => entry.1 = name).map Prod.snd

/-- The variable names of some parts, in order. -/
def namesOf (parts : List Part) : List Text :=
  parts.filterMap fun
    | .var name => some name
    | .lit _ => none

@[simp] theorem names_of_lit (text : Text) (rest : List Part) :
    namesOf (.lit text :: rest) = namesOf rest := rfl

@[simp] theorem names_of_var (name : Text) (rest : List Part) :
    namesOf (.var name :: rest) = name :: namesOf rest := rfl

/-- A later binding of a name hides an earlier one. -/
theorem find_bind (bindings : List (Text × Text)) (entry : Text × Text) (name : Text) :
    bound (bind bindings entry) name = bound (entry :: bindings) name := by
  by_cases same : entry.1 = name
  · simp [bound, bind, same]
  · have kept : (bindings.filter fun other => other.1 ≠ entry.1).find? (fun other => other.1 = name) =
        bindings.find? fun other => other.1 = name := by
      rw [List.find?_filter]
      refine List.find?_congr fun other _ => ?_
      by_cases named : other.1 = name
      · simp [named, Ne.symm same]
      · simp [named]
    simp only [bound, bind, List.find?_cons, same, decide_false, kept]

/-- Bindings are looked up in those added first. -/
theorem bound_append (entries others : List (Text × Text)) (name : Text) :
    bound (entries ++ others) name = (bound entries name).or (bound others name) := by
  rw [bound, List.find?_append, bound, bound]
  cases entries.find? fun entry => entry.1 = name <;> rfl

/-- Of the entries bound one after the other, the last of a name stays. -/
theorem bound_fold (entries bindings : List (Text × Text)) (name : Text) :
    bound (entries.foldl bind bindings) name =
      (bound entries.reverse name).or (bound bindings name) := by
  induction entries generalizing bindings with
  | nil => rfl
  | cons entry rest ih =>
    rw [List.foldl_cons, ih, find_bind, List.reverse_cons, bound_append, ← List.singleton_append,
      bound_append, Option.or_assoc]

/-- What a template's captures bind a name to. -/
def captured (parts : List Part) (texts : List Text) (name : Text) : Option Text :=
  bound ((namesOf parts).zip texts).reverse name

/-- What a match binds a name to is the last of the pieces it captured for it. -/
theorem bound_captures (parts : List Part) (texts : List Text) (name : Text) :
    bound (((namesOf parts).zip texts).foldl bind []) name = captured parts texts name := by
  have none : bound [] name = none := rfl
  rw [bound_fold, none, Option.or_none, captured]

/-- A piece captured for a name counts unless a later one does. -/
theorem captured_var (variable_ : Text) (rest : List Part) (text : Text) (texts : List Text)
    (name : Text) :
    captured (.var variable_ :: rest) (text :: texts) name =
      (captured rest texts name).or (if variable_ = name then some text else none) := by
  rw [captured, names_of_var, List.zip_cons_cons, List.reverse_cons, bound_append]
  congr 1
  by_cases same : variable_ = name <;> simp [bound, same]

/-- A name the template does not use is bound to nothing. -/
theorem captured_of_absent (parts : List Part) (texts : List Text) (name : Text)
    (absent : name ∉ namesOf parts) : captured parts texts name = none := by
  rw [captured, bound, Option.map_eq_none_iff, List.find?_eq_none]
  rintro ⟨other, text⟩ member same
  have named := (List.of_mem_zip (List.mem_reverse.mp member)).1
  exact absent (of_decide_eq_true same ▸ named)

/-- Where every name is bound to its own text, expansion fills the parts with it. -/
theorem expand_of_fill {bindings : List (Text × Text)} {parts : List Part} {texts : List Text}
    {input : Text} (filled : fill parts texts = some input)
    (own : ∀ entry ∈ (namesOf parts).zip texts, bound bindings entry.1 = some entry.2) :
    (parts.mapM (expandPart bindings)).map List.flatten = some input := by
  induction parts generalizing texts input with
  | nil =>
    cases texts with
    | nil => exact filled
    | cons => cases filled
  | cons part rest ih =>
    cases part with
    | lit text =>
      rw [fill, Option.map_eq_some_iff] at filled
      obtain ⟨tail, read, rfl⟩ := filled
      obtain ⟨outs, expanded, rfl⟩ := Option.map_eq_some_iff.mp (ih read own)
      rw [List.mapM_cons, expanded]
      rfl
    | var name =>
      cases texts with
      | nil => cases filled
      | cons text texts =>
        rw [fill, Option.map_eq_some_iff] at filled
        obtain ⟨tail, read, rfl⟩ := filled
        rw [names_of_var, List.zip_cons_cons, List.forall_mem_cons] at own
        obtain ⟨outs, expanded, rfl⟩ := Option.map_eq_some_iff.mp (ih read own.2)
        have first : expandPart bindings (.var name) = some text := own.1
        rw [List.mapM_cons, first, expanded]
        rfl

/-- Where no name is used twice, a name is bound to the one text captured for it. -/
theorem captured_own {parts : List Part} {texts : List Text} (once : (namesOf parts).Nodup)
    (entry : Text × Text) (member : entry ∈ (namesOf parts).zip texts) :
    captured parts texts entry.1 = some entry.2 := by
  induction parts generalizing texts with
  | nil => cases member
  | cons part rest ih =>
    cases part with
    | lit text => exact ih once member
    | var name =>
      cases texts with
      | nil => cases member
      | cons text texts =>
        rw [names_of_var, List.nodup_cons] at once
        rw [names_of_var, List.zip_cons_cons, List.mem_cons] at member
        rw [captured_var]
        rcases member with rfl | later
        · rw [captured_of_absent rest texts name once.1, if_pos rfl]
          rfl
        · rw [ih once.2 later]
          rfl

/-- How long the parts are with one character for every variable. -/
def width : List Part → Nat
  | [] => 0
  | .lit text :: rest => text.length + width rest
  | .var _ :: rest => width rest + 1

theorem width_var (name : Text) (rest : List Part) :
    width (.var name :: rest) = width rest + 1 := rfl

/-- A literal in front of what matches matches. -/
theorem match_from_lit_of {empty : List Text} {rest : List Part} {tail : Text} {texts : List Text}
    (text : Text) (matched : matchFrom empty rest tail = some texts) :
    matchFrom empty (.lit text :: rest) (text ++ tail) = some texts := by
  rw [matchFrom, (Text.strip_prefix_eq_some _ _ tail).mpr rfl]
  exact matched

/-- One character is as short as a capture can be. -/
theorem match_from_one {next : Text} {more : List Part} {tail : Text} {texts : List Text}
    (name : Text) (c : Char) (matched : matchFrom [] (.lit next :: more) tail = some texts) :
    matchFrom [] (.var name :: .lit next :: more) (c :: tail) = some ([c] :: texts) := by
  have first : yieldAt [] name (.lit next :: more) ([], c :: tail) = none := rfl
  have second : yieldAt [] name (.lit next :: more) ([c], tail) = some ([c] :: texts) := by
    rw [yieldAt, if_pos (by simp), matched, Option.map_some]
  rw [match_from_var, cutsFrom, List.findSome?_cons, first, cuts_from_eq, List.nil_append,
    List.findSome?_cons, second]

/-- Where the literal cannot stand after one character, two are as short as a capture can be. -/
theorem match_from_two {next : Text} {more : List Part} {tail : Text} {texts : List Text}
    (name : Text) (c : Char) (other : next.head? ≠ some c)
    (long : next ≠ []) (matched : matchFrom [] (.lit next :: more) tail = some texts) :
    matchFrom [] (.var name :: .lit next :: more) (c :: c :: tail) = some ([c, c] :: texts) := by
  have absent : Text.startsWith (c :: tail) next = false := by
    cases next with
    | nil => exact absurd rfl long
    | cons d next =>
      rw [Text.startsWith, List.isPrefixOf, Bool.and_eq_false_iff]
      exact .inl (beq_false_of_ne fun same => other (congrArg some same))
  have first : yieldAt [] name (.lit next :: more) ([], c :: c :: tail) = none := rfl
  have second : yieldAt [] name (.lit next :: more) ([c], c :: tail) = none := by
    rw [yieldAt, if_pos (by simp), match_from_lit_none _ _ _ _ absent, Option.map_none]
  have third : yieldAt [] name (.lit next :: more) ([c] ++ [c], tail) =
      some ([c, c] :: texts) := by
    rw [yieldAt, if_pos (by simp), matched, Option.map_some]
    rfl
  rw [match_from_var, cutsFrom, List.findSome?_cons, first, List.nil_append, cutsFrom,
    List.findSome?_cons, second, cuts_from_eq, List.findSome?_cons, third]

/-- Every name is bound to one character. -/
def Ones (parts : List Part) (texts : List Text) : Prop :=
  ∀ name ∈ namesOf parts, ∃ c, captured parts texts name = some [c]

/-- A variable used again, or of one character, keeps a match one of the least. -/
theorem Ones.var {rest : List Part} {texts : List Text} (ones : Ones rest texts) (name text : Text)
    (again : name ∈ namesOf rest ∨ ∃ c, text = [c]) : Ones (.var name :: rest) (text :: texts) := by
  intro other member
  rw [captured_var]
  by_cases later : other ∈ namesOf rest
  · obtain ⟨c, one⟩ := ones other later
    exact ⟨c, by rw [one]; rfl⟩
  · have same : name = other := by
      rw [names_of_var, List.mem_cons] at member
      exact (member.resolve_right later).symm
    subst same
    obtain ⟨c, rfl⟩ := again.resolve_left later
    exact ⟨c, by rw [captured_of_absent rest texts name later, if_pos rfl]; rfl⟩

/-- Some input has one character captured for every variable. -/
theorem match_of_ones {parts : List Part} (apart : adjacent parts = false) :
    ∃ input texts, matchFrom [] parts input = some texts ∧ input.length = width parts ∧
      Ones parts texts := by
  induction parts with
  | nil => exact ⟨[], [], rfl, rfl, by simp [Ones, namesOf]⟩
  | cons part rest ih =>
    obtain ⟨input, texts, matched, long, ones⟩ := ih (adjacent_tail part rest apart)
    cases part with
    | lit text =>
      refine ⟨text ++ input, texts, match_from_lit_of text matched, ?_, ones⟩
      rw [List.length_append, long, width]
    | var name =>
      refine ⟨'x' :: input, ['x'] :: texts, ?_, by rw [List.length_cons, long, width],
        ones.var name ['x'] (.inr ⟨'x', rfl⟩)⟩
      rcases after_var name rest apart with rfl | ⟨next, more, rfl⟩
      · rw [matchFrom] at matched
        split at matched
        · rename_i none
          rw [List.isEmpty_iff.mp none, ← Option.some.inj matched]
          rfl
        · cases matched
      · exact match_from_one name 'x' matched

/-- Where a name is used twice, some input has two characters captured for its first use and
one for every other. -/
theorem match_of_repeated {parts : List Part} (plain : ∀ part ∈ parts, part.Plain)
    (apart : adjacent parts = false) (again : ¬(namesOf parts).Nodup) :
    ∃ input texts, matchFrom [] parts input = some texts ∧ input.length = width parts + 1 ∧
      Ones parts texts := by
  induction parts with
  | nil => exact absurd List.nodup_nil again
  | cons part rest ih =>
    have apartRest := adjacent_tail part rest apart
    have plainRest : ∀ other ∈ rest, other.Plain := fun other member =>
      plain other (List.mem_cons_of_mem _ member)
    cases part with
    | lit text =>
      obtain ⟨input, texts, matched, long, ones⟩ := ih plainRest apartRest again
      refine ⟨text ++ input, texts, match_from_lit_of text matched, ?_, ones⟩
      rw [List.length_append, long, width]
      omega
    | var name =>
      rcases after_var name rest apart with rfl | ⟨next, more, rfl⟩
      · exact absurd (List.nodup_singleton name) again
      · have next_long : next ≠ [] := (plainRest (.lit next) List.mem_cons_self).1
        by_cases later : name ∈ namesOf (.lit next :: more)
        · obtain ⟨input, texts, matched, long, ones⟩ := match_of_ones apartRest
          obtain ⟨c, other⟩ : ∃ c, next.head? ≠ some c := by
            by_cases opens : next.head? = some 'x'
            · exact ⟨'y', by rw [opens]; decide⟩
            · exact ⟨'x', opens⟩
          refine ⟨c :: c :: input, [c, c] :: texts,
            match_from_two name c other next_long matched, ?_, ones.var name [c, c] (.inl later)⟩
          rw [List.length_cons, List.length_cons, long, width_var]
        · have still : ¬(namesOf (.lit next :: more)).Nodup := fun once =>
            again (List.nodup_cons.mpr ⟨later, once⟩)
          obtain ⟨input, texts, matched, long, ones⟩ := ih plainRest apartRest still
          refine ⟨'x' :: input, ['x'] :: texts, match_from_one name 'x' matched, ?_,
            ones.var name ['x'] (.inr ⟨'x', rfl⟩)⟩
          rw [List.length_cons, long, width_var]

/-- Expanded with one character for every name, the parts are as long as they are wide. -/
theorem expand_length {bindings : List (Text × Text)} {parts : List Part}
    (ones : ∀ name ∈ namesOf parts, ∃ c, bound bindings name = some [c]) :
    ∃ out, (parts.mapM (expandPart bindings)).map List.flatten = some out ∧
      out.length = width parts := by
  induction parts with
  | nil => exact ⟨[], rfl, rfl⟩
  | cons part rest ih =>
    cases part with
    | lit text =>
      obtain ⟨out, expanded, long⟩ := ih ones
      obtain ⟨outs, each, rfl⟩ := Option.map_eq_some_iff.mp expanded
      refine ⟨text ++ outs.flatten, ?_, by rw [List.length_append, long, width]⟩
      rw [List.mapM_cons, each]
      rfl
    | var name =>
      rw [names_of_var, List.forall_mem_cons] at ones
      obtain ⟨⟨c, one⟩, rest_ones⟩ := ones
      obtain ⟨out, expanded, long⟩ := ih rest_ones
      obtain ⟨outs, each, rfl⟩ := Option.map_eq_some_iff.mp expanded
      have first : expandPart bindings (.var name) = some [c] := one
      refine ⟨c :: outs.flatten, ?_, by rw [List.length_cons, long, width]⟩
      rw [List.mapM_cons, first, each]
      rfl

/-- On an input, matching inverts expansion: it succeeds exactly where some non-empty texts, one
for each occurrence of a variable, expand the template to the input; what it binds expands to the
input; and what it captures is the leftmost reading. -/
structure InvertsOn (template : UriTemplate) (input : Text) : Prop where
  matched : (template.matchStr input).isSome ↔ Readable template.parts input
  expands : ∀ bindings, template.matchStr input = some bindings →
    template.expand bindings = some input
  leftmost : ∀ spans, template.spans input [] = some spans →
    Leftmost input template.parts 0 spans

/-- No template that is read has two variables side by side. -/
theorem parse_apart {pattern : Text} {template : UriTemplate} (parsed : parse pattern = .ok template) :
    adjacent template.parts = false := by
  unfold parse at parsed
  split at parsed
  · cases parsed
  · split at parsed
    · cases parsed
    · rename_i apart
      cases parsed
      exact Bool.eq_false_iff.mpr apart

/-- Of every template that is accepted, matching inverts expansion on all inputs exactly when no
variable is used twice. -/
theorem matching_inverts_iff (pattern : Text) (template : UriTemplate)
    (parsed : parse pattern = .ok template) :
    (∀ input, template.InvertsOn input) ↔ template.variableNames.Nodup := by
  have apart := parse_apart parsed
  have searched : ∀ input, template.matchStr input =
      (matchFrom [] template.parts input).map fun texts =>
        ((namesOf template.parts).zip texts).foldl bind [] := fun input =>
    template.match_searching_eq input [] apart
  constructor
  · intro inverts
    by_contra again
    obtain ⟨input, texts, matched, long, ones⟩ := match_of_repeated template.plain apart again
    have bindings := (inverts input).expands _ (by rw [searched, matched, Option.map_some])
    have each : ∀ name ∈ namesOf template.parts, ∃ c,
        bound (((namesOf template.parts).zip texts).foldl bind []) name = some [c] := by
      intro name member
      rw [bound_captures]
      exact ones name member
    obtain ⟨out, expanded, short⟩ := expand_length each
    have same : some out = some input := expanded.symm.trans bindings
    rw [← Option.some.inj same, short] at long
    omega
  · intro once input
    refine ⟨?_, ?_, ?_⟩
    · rw [searched, Option.isSome_map]
      exact match_from_complete apart
    · intro bindings found
      rw [searched, Option.map_eq_some_iff] at found
      obtain ⟨texts, matched, rfl⟩ := found
      refine expand_of_fill (fill_of_match apart matched) fun entry member => ?_
      rw [bound_captures]
      exact captured_own once entry member
    · intro spans found
      rw [spans_eq, Option.map_eq_some_iff] at found
      obtain ⟨texts, matched, rfl⟩ := found
      exact leftmost_of_match apart (Nat.zero_le _) matched

end UriTemplate

namespace RepeatedNameExample

open UriTemplate

/-- A variable used twice. -/
def twice : UriTemplate where
  parts := [.lit "urn:".toList, .var "a".toList, .lit ":".toList, .var "a".toList]
  source := "urn:\x7ba\x7d:\x7ba\x7d".toList
  spelled := by decide
  plain := scan_plain [] "urn:\x7ba\x7d:\x7ba\x7d".toList _ List.not_mem_nil (by decide)

/-- A variable used once. -/
def once : UriTemplate where
  parts := [.lit "urn:r:".toList, .var "id".toList, .lit "/data".toList]
  source := "urn:r:\x7bid\x7d/data".toList
  spelled := by decide
  plain := scan_plain [] "urn:r:\x7bid\x7d/data".toList _ List.not_mem_nil (by decide)

/-- What `x:y` expands to is matched as `x` and `y:x:y`, of which the last is kept. -/
theorem expansion_is_not_given_back :
    ¬∀ pattern template, parse pattern = .ok template → ∀ input, template.InvertsOn input := by
  intro inverts
  have parsed : parse twice.source = .ok twice := by decide
  have matched : twice.matchStr "urn:x:y:x:y".toList = some [("a".toList, "y:x:y".toList)] := by
    decide
  have given := (inverts _ twice parsed "urn:x:y:x:y".toList).expands _ matched
  exact absurd given (by decide)

/-- Used once, a name is read back from what it was filled into. -/
theorem one_use_is_given_back : once.InvertsOn "urn:r:5/data".toList :=
  (matching_inverts_iff once.source once (by decide)).mpr (by decide) _

end RepeatedNameExample

end Ikigai
