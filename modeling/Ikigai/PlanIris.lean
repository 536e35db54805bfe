import Ikigai.MintedIris

/-!
# Plan IRIs

A plan, its steps, its bound names, its forks, its inputs and the arguments of its steps
are named below `urn:plan:`. A plan's id keeps its real escapes, a name none of them: its
percent signs are characters. Both keep their colons, so the parts of an IRI are told apart
by the words between the colons alone.
-/

namespace Ikigai.Plan

open Rfc3987

/-- Whether a byte is an ASCII hex digit. -/
def isHexByte (byte : UInt8) : Bool := (hexValue byte).isSome

/-- Whether the bytes behind a percent sign make it an escape. -/
def startsEscape : List UInt8 → Bool
  | first :: second :: _ => isHexByte first && isHexByte second
  | _ => false

/-- The walk over the characters of an id that holds a percent sign. -/
def idCharacters : Text → Text
  | [] => []
  | c :: rest =>
    (if c = '%' ∧ startsEscape (Text.asBytes rest) then ['%'] else encodeName [c]) ++
      idCharacters rest

/-- Encode a plan id: as a name, but for the escapes it holds. -/
def idFragment (planId : Text) : Text :=
  if '%' ∈ planId then idCharacters planId else encodeName planId

def nameFragment (name : Text) : Text := encodeName name

def planHead : Text := "urn:plan:".toList

def stepMark : Text := ":step:".toList

def varMark : Text := ":var:".toList

def forkMark : Text := ":fork:".toList

def inputMark : Text := ":input:".toList

def argMark : Text := ":arg:".toList

/-- The IRI of the plan itself. -/
def processIri (planId : Text) : Iri := planHead ++ idFragment planId

/-- One step, by its position in the text face. -/
def stepIri (planId : Text) (n : Nat) : Iri :=
  processIri planId ++ stepMark ++ Nat.toDigits 10 n

/-- A bound name: a step's or a parameter's. -/
def varIri (planId name : Text) : Iri := processIri planId ++ varMark ++ nameFragment name

def forkIri (planId : Text) (n : Nat) : Iri :=
  processIri planId ++ forkMark ++ Nat.toDigits 10 n

/-- A declared parameter's node. -/
def inputIri (planId name : Text) : Iri :=
  processIri planId ++ inputMark ++ nameFragment name

/-- One named argument of a step. -/
def argumentIri (planId : Text) (n : Nat) (name : Text) : Iri :=
  stepIri planId n ++ argMark ++ nameFragment name

/-- What a plan has an IRI for: the kind, with its position and its name. -/
inductive Part where
  | process
  | step (n : Nat)
  | var (name : Text)
  | fork (n : Nat)
  | input (name : Text)
  | argument (n : Nat) (name : Text)
deriving DecidableEq

def Part.iri (planId : Text) : Part → Iri
  | process => processIri planId
  | step n => stepIri planId n
  | var name => varIri planId name
  | fork n => forkIri planId n
  | input name => inputIri planId name
  | argument n name => argumentIri planId n name

/-- What stands literally in an id: what a name keeps. -/
def isKept (c : Char) : Bool := !mustEncode c

/-- A character from 0x80 on is no hex digit, and its first byte is none. -/
theorem wide_not_hex (c : Char) (wide : 0x80 ≤ c.toNat) :
    isHex c = false ∧ ∃ byte rest, String.utf8EncodeChar c = byte :: rest ∧
      isHexByte byte = false := by
  have number : c.toNat = c.val.toNat := rfl
  constructor
  · by_contra hex
    rw [Bool.not_eq_false] at hex
    simp only [isHex, Char.isDigit, Bool.or_eq_true, Bool.and_eq_true, decide_eq_true_eq,
      Char.le_def, UInt32.le_iff_toNat_le, ge_iff_le] at hex
    have digit : ('9' : Char).val.toNat = 0x39 := rfl
    have lower : ('f' : Char).val.toNat = 0x66 := rfl
    have upper : ('F' : Char).val.toNat = 0x46 := rfl
    have nine : (57 : UInt32).toNat = 57 := rfl
    omega
  · have far : ∀ byte : UInt8, 0x80 ≤ byte.toNat → isHexByte byte = false := by
      intro byte large
      have first : ¬(0x30 ≤ byte.toNat ∧ byte.toNat ≤ 0x39) := by omega
      have second : ¬(0x41 ≤ byte.toNat ∧ byte.toNat ≤ 0x46) := by omega
      have third : ¬(0x61 ≤ byte.toNat ∧ byte.toNat ≤ 0x66) := by omega
      simp only [isHexByte, hexValue, if_neg first, if_neg second, if_neg third, Option.isSome_none]
    have bound := c.val.toNat_lt
    simp only [String.utf8EncodeChar]
    split
    · omega
    · repeat' split
      all_goals
        refine ⟨_, _, rfl, far _ ?_⟩
        rw [UInt8.toNat_ofNat']
        omega

/-- The first byte of a character is a hex digit when the character is one, and then it is
its only byte. -/
theorem hex_first_byte (c : Char) : ∃ byte rest, String.utf8EncodeChar c = byte :: rest ∧
    isHexByte byte = isHex c ∧ (isHex c = true → rest = []) := by
  by_cases low : c.toNat < 0x80
  · have swept : ((List.range 0x80).all fun point =>
        (String.utf8EncodeChar (Char.ofNat point)).head?.any fun byte =>
          isHexByte byte = isHex (Char.ofNat point) &&
            (String.utf8EncodeChar (Char.ofNat point)).length = 1) = true := by
      decide
    have own := List.all_eq_true.mp swept c.toNat (List.mem_range.mpr low)
    rw [Char.ofNat_toNat] at own
    cases bytes : String.utf8EncodeChar c with
    | nil => simp [bytes] at own
    | cons byte rest =>
      simp only [bytes, List.head?_cons, Option.any_some, List.length_cons, Bool.and_eq_true,
        decide_eq_true_eq] at own
      exact ⟨byte, rest, rfl, own.1, fun _ => List.length_eq_zero_iff.mp (by omega)⟩
  · obtain ⟨other, byte, rest, bytes, none⟩ := wide_not_hex c (by omega)
    refine ⟨byte, rest, bytes, none.trans other.symm, fun hex => ?_⟩
    rw [other] at hex
    cases hex

/-- Looking ahead over the bytes finds two hex digits exactly when the characters do. -/
theorem starts_escape_iff (rest : Text) : startsEscape (Text.asBytes rest) = true ↔
    ∃ first second tail, rest = first :: second :: tail ∧ isHex first = true ∧
      isHex second = true := by
  cases rest with
  | nil => simp [Text.asBytes, startsEscape]
  | cons first rest =>
    obtain ⟨byte, further, bytes, same, alone⟩ := hex_first_byte first
    have ahead : Text.asBytes (first :: rest) = byte :: (further ++ Text.asBytes rest) := by
      rw [Text.asBytes, List.flatMap_cons, bytes]
      rfl
    rw [ahead]
    cases hex : isHex first with
    | false =>
      rw [hex] at same
      constructor
      · intro starts
        cases behind : further ++ Text.asBytes rest with
        | nil => simp [behind, startsEscape] at starts
        | cons => simp [behind, startsEscape, same] at starts
      · rintro ⟨_, _, _, opens, digit, _⟩
        rw [← (List.cons.inj opens).1, hex] at digit
        cases digit
    | true =>
      rw [alone hex, List.nil_append]
      cases rest with
      | nil => simp [Text.asBytes, startsEscape]
      | cons second tail =>
        obtain ⟨next, further, bytes, same', _⟩ := hex_first_byte second
        have ahead : Text.asBytes (second :: tail) = next :: (further ++ Text.asBytes tail) := by
          rw [Text.asBytes, List.flatMap_cons, bytes]
          rfl
        simp [ahead, startsEscape, same, same', hex]

/-- An id without a percent sign is encoded as any name is. -/
theorem id_characters_plain (planId : Text) (plain : '%' ∉ planId) :
    idCharacters planId = encodeName planId := by
  induction planId with
  | nil => rfl
  | cons c rest ih =>
    rw [List.mem_cons, not_or] at plain
    have other : ¬(c = '%' ∧ startsEscape (Text.asBytes rest) = true) :=
      fun both => plain.1 both.1.symm
    rw [idCharacters, if_neg other, ih plain.2, ← encode_name_append]
    rfl

/-- The walk serves an id without a percent sign as well. -/
theorem id_fragment_eq (planId : Text) : idFragment planId = idCharacters planId := by
  unfold idFragment
  split
  · rfl
  · rename_i plain
    exact (id_characters_plain planId plain).symm

theorem percent_not_hex : isHex '%' = false := by rfl

/-- A hexadecimal digit needs no encoding. -/
theorem hex_kept (c : Char) (hex : isHex c = true) : mustEncode c = false := by
  by_cases low : c.toNat < 0x80
  · have swept : ((List.range 0x80).all fun point =>
        !isHex (Char.ofNat point) || !mustEncode (Char.ofNat point)) = true := by
      decide
    have own := List.all_eq_true.mp swept c.toNat (List.mem_range.mpr low)
    rw [Char.ofNat_toNat, hex] at own
    simpa using own
  · rw [(wide_not_hex c (by omega)).1] at hex
    cases hex

/-- What needs no encoding stands for itself. -/
theorem encode_kept (c : Char) (kept : mustEncode c = false) : encodeName [c] = [c] := by
  simp only [encodeName, encodeWhere, List.flatMap_singleton, kept, Bool.false_eq_true,
    if_false]

/-- A hex digit is written as it is, wherever it stands. -/
theorem id_characters_hex (c : Char) (rest : Text) (hex : isHex c = true) :
    idCharacters (c :: rest) = c :: idCharacters rest := by
  have other : ¬(c = '%' ∧ startsEscape (Text.asBytes rest) = true) := by
    rintro ⟨rfl, _⟩
    rw [percent_not_hex] at hex
    cases hex
  rw [idCharacters, if_neg other, encode_kept c (hex_kept c hex)]
  rfl

/-- One character's text is spelled with what a name keeps. -/
theorem encode_one_spelled (c : Char) : spelled isKept (encodeName [c]) = true := by
  rw [encodeName, encodeWhere, List.flatMap_singleton]
  split
  · exact escapes_spelled _ _
  · rename_i plain
    rw [Bool.not_eq_true] at plain
    have percent : c ≠ '%' := by
      rintro rfl
      cases plain
    exact kept_spelled _ c percent (by rw [isKept, plain]; rfl)

/-- A percent sign spells a byte when two hexadecimal digits follow. -/
theorem spelled_percent (allowed : Char → Bool) (first second : Char) (rest : Text)
    (one : isHex first = true) (two : isHex second = true)
    (reads : spelled allowed rest = true) :
    spelled allowed ('%' :: first :: second :: rest) = true := by
  rw [spelled.eq_def]
  simp only [if_pos, one, two, reads, Bool.and_self]

/-- Any other character spells itself where it is allowed. -/
theorem spelled_plain (allowed : Char → Bool) (c : Char) (rest : Text) (percent : c ≠ '%') :
    spelled allowed (c :: rest) = (allowed c && spelled allowed rest) := by
  rw [spelled.eq_def]
  exact if_neg percent

/-- Whatever the id, what is written of it opens a real escape at each percent sign, and holds
besides these only what a name keeps. -/
theorem id_characters_spelled (planId : Text) : spelled isKept (idCharacters planId) = true := by
  induction planId with
  | nil => rfl
  | cons c rest ih =>
    by_cases starts : c = '%' ∧ startsEscape (Text.asBytes rest) = true
    · obtain ⟨rfl, ahead⟩ := starts
      obtain ⟨first, second, tail, rfl, one, two⟩ := (starts_escape_iff rest).mp ahead
      have apart : ∀ digit : Char, isHex digit = true → digit ≠ '%' := by
        rintro digit hex rfl
        rw [percent_not_hex] at hex
        cases hex
      rw [idCharacters, if_pos ⟨rfl, ahead⟩]
      rw [id_characters_hex _ _ one, id_characters_hex _ _ two] at ih ⊢
      rw [spelled_plain _ _ _ (apart first one), spelled_plain _ _ _ (apart second two),
        Bool.and_eq_true, Bool.and_eq_true] at ih
      exact spelled_percent _ _ _ _ one two ih.2.2
    · rw [idCharacters, if_neg starts]
      exact spelled_append _ _ _ (encode_one_spelled c) ih

/-- What is written so is written again as it stands. -/
theorem id_characters_of_spelled (text : Text) (reads : spelled isKept text = true) :
    idCharacters text = text := by
  fun_induction spelled isKept text with
  | case1 => rfl
  | case2 first second rest ih =>
    simp only [Bool.and_eq_true] at reads
    have starts : startsEscape (Text.asBytes (first :: second :: rest)) = true :=
      (starts_escape_iff _).mpr ⟨first, second, rest, rfl, reads.1.1, reads.1.2⟩
    rw [idCharacters, if_pos ⟨rfl, starts⟩, id_characters_hex _ _ reads.1.1,
      id_characters_hex _ _ reads.1.2, ih reads.2]
    rfl
  | case3 => cases reads
  | case4 c rest percent ih =>
    rw [Bool.and_eq_true] at reads
    have kept : mustEncode c = false := by simpa [isKept] using reads.1
    rw [idCharacters, if_neg fun both => percent both.1, encode_kept c kept, ih reads.2]
    rfl

/-- An id read back out of an IRI is written as it stands there. -/
theorem id_fragment_idempotent (planId : Text) :
    idFragment (idFragment planId) = idFragment planId := by
  rw [id_fragment_eq planId, id_fragment_eq]
  exact id_characters_of_spelled _ (id_characters_spelled planId)

/-- What the IRI of a part puts behind the id. -/
def Part.tail : Part → Text
  | process => []
  | step n => stepMark ++ Nat.toDigits 10 n
  | var name => varMark ++ encodeName name
  | fork n => forkMark ++ Nat.toDigits 10 n
  | input name => inputMark ++ encodeName name
  | argument n name => stepMark ++ (Nat.toDigits 10 n ++ (argMark ++ encodeName name))

/-- A part's IRI is the plan's head, the id and the part's own tail. -/
theorem Part.iri_eq (planId : Text) (part : Part) :
    part.iri planId = planHead ++ (idFragment planId ++ part.tail) := by
  have below : ∀ tail, processIri planId ++ tail =
      planHead ++ (idFragment planId ++ tail) := by
    intro tail
    rw [processIri, List.append_assoc]
  cases part with
  | process => rw [Part.iri, Part.tail, ← below, List.append_nil]
  | step n => rw [Part.iri, stepIri, Part.tail, ← below, List.append_assoc]
  | var name => rw [Part.iri, varIri, nameFragment, Part.tail, ← below, List.append_assoc]
  | fork n => rw [Part.iri, forkIri, Part.tail, ← below, List.append_assoc]
  | input name => rw [Part.iri, inputIri, nameFragment, Part.tail, ← below, List.append_assoc]
  | argument n name =>
    rw [Part.iri, argumentIri, stepIri, nameFragment, Part.tail, ← below, List.append_assoc,
      List.append_assoc, List.append_assoc]

/-- What is spelled of some characters is spelled of more. -/
theorem spelled_mono {allowed wider : Char → Bool}
    (sub : ∀ c, allowed c = true → wider c = true) (text : Text)
    (reads : spelled allowed text = true) : spelled wider text = true := by
  fun_induction spelled allowed text with
  | case1 => rfl
  | case2 first second rest ih =>
    simp only [Bool.and_eq_true] at reads
    exact spelled_percent wider first second rest reads.1.1 reads.1.2 (ih reads.2)
  | case3 => cases reads
  | case4 c rest percent ih =>
    rw [Bool.and_eq_true] at reads
    rw [spelled_plain wider c rest percent, sub c reads.1, ih reads.2]
    rfl

/-- A name is encoded to characters that are kept. -/
theorem encode_name_kept (name : Text) : spelled isKept (encodeName name) = true := by
  induction name with
  | nil => rfl
  | cons c name ih =>
    have split : encodeName (c :: name) = encodeName [c] ++ encodeName name :=
      encode_name_append [c] name
    rw [split]
    exact spelled_append _ _ _ (encode_one_spelled c) ih

/-- A decimal digit is a hexadecimal one. -/
theorem digit_is_hex (c : Char) (digit : c.isDigit = true) : isHex c = true := by
  simp only [isHex, digit, Bool.true_or]

/-- A number is written in characters that are kept. -/
theorem digits_kept (n : Nat) : spelled isKept (Nat.toDigits 10 n) = true := by
  refine plain_spelled _ _ fun c member => ?_
  have hex : isHex c = true :=
    digit_is_hex c (Nat.isDigit_of_mem_toDigits (by decide) (by decide) member)
  constructor
  · rintro rfl
    rw [percent_not_hex] at hex
    cases hex
  · rw [isKept, hex_kept c hex]
    rfl

/-- The marks, letter by letter, so that they can be compared. -/
theorem step_mark_eq : stepMark = [':', 's', 't', 'e', 'p', ':'] := by decide

theorem var_mark_eq : varMark = [':', 'v', 'a', 'r', ':'] := by decide

theorem fork_mark_eq : forkMark = [':', 'f', 'o', 'r', 'k', ':'] := by decide

theorem input_mark_eq : inputMark = [':', 'i', 'n', 'p', 'u', 't', ':'] := by decide

theorem arg_mark_eq : argMark = [':', 'a', 'r', 'g', ':'] := by decide

/-- The words between the colons are kept as they are. -/
theorem marks_kept : spelled isKept stepMark = true ∧ spelled isKept varMark = true ∧
    spelled isKept forkMark = true ∧ spelled isKept inputMark = true ∧
    spelled isKept argMark = true := by
  rw [step_mark_eq, var_mark_eq, fork_mark_eq, input_mark_eq, arg_mark_eq]
  exact ⟨rfl, rfl, rfl, rfl, rfl⟩

/-- A part's tail is spelled of characters that are kept. -/
theorem Part.tail_kept (part : Part) : spelled isKept part.tail = true := by
  obtain ⟨step, var, fork, input, arg⟩ := marks_kept
  cases part with
  | process => rfl
  | step n => exact spelled_append _ _ _ step (digits_kept n)
  | var name => exact spelled_append _ _ _ var (encode_name_kept name)
  | fork n => exact spelled_append _ _ _ fork (digits_kept n)
  | input name => exact spelled_append _ _ _ input (encode_name_kept name)
  | argument n name =>
    have named := spelled_append _ _ _ arg (encode_name_kept name)
    exact spelled_append _ _ _ step (spelled_append _ _ _ (digits_kept n) named)

/-- What a part's IRI holds behind `urn:plan:` is spelled as a name is, escapes kept. -/
theorem Part.behind_spelled (planId : Text) (part : Part) :
    spelled isKept (idFragment planId ++ part.tail) = true := by
  rw [id_fragment_eq]
  exact spelled_append _ _ _ (id_characters_spelled planId) part.tail_kept

/-- Each percent sign starts an escape of two digits. -/
def Escaped (text : Text) : Prop :=
  ∀ before after, text = before ++ '%' :: after →
    ∃ first second rest, after = first :: second :: rest ∧ isHex first = true ∧
      isHex second = true

/-- A text that is spelled of allowed characters is escaped. -/
theorem Escaped.of_spelled (allowed : Char → Bool) (text : Text)
    (reads : spelled allowed text = true) : Escaped text := by
  fun_induction spelled allowed text with
  | case1 =>
    intro before after same
    cases before <;> cases same
  | case2 first second rest ih =>
    simp only [Bool.and_eq_true] at reads
    obtain ⟨⟨one, two⟩, further⟩ := reads
    have digits : ∀ digit : Char, isHex digit = true → digit ≠ '%' := by
      rintro digit hex rfl
      rw [percent_not_hex] at hex
      cases hex
    intro before after same
    cases before with
    | nil =>
      obtain ⟨-, rfl⟩ := List.cons.inj same
      exact ⟨first, second, rest, rfl, one, two⟩
    | cons own before =>
      replace same := (List.cons.inj same).2
      cases before with
      | nil => exact absurd (List.cons.inj same).1 (digits first one)
      | cons own before =>
        replace same := (List.cons.inj same).2
        cases before with
        | nil => exact absurd (List.cons.inj same).1 (digits second two)
        | cons own before => exact ih further before after (List.cons.inj same).2
  | case3 => cases reads
  | case4 c rest percent ih =>
    rw [Bool.and_eq_true] at reads
    intro before after same
    cases before with
    | nil => exact absurd (List.cons.inj same).1 percent
    | cons own before => exact ih reads.2 before after (List.cons.inj same).2

theorem plan_head_eq : planHead = ['u', 'r', 'n', ':', 'p', 'l', 'a', 'n', ':'] := by decide

/-- What stands behind the head is a path, and whole it is an IRI. -/
theorem plan_iri_valid (path : Text) (reads : spelled isKept path = true) :
    isIri (planHead ++ path) = true := by
  have wide : ∀ c, isKept c = true → inPath c = true := by
    intro c kept
    exact kept_in_path c (by simpa [isKept] using kept)
  have word : isPath ['p', 'l', 'a', 'n', ':'] = true := by rfl
  have whole : isPath (['p', 'l', 'a', 'n', ':'] ++ path) = true :=
    spelled_append _ ['p', 'l', 'a', 'n', ':'] path word (spelled_mono wide path reads)
  have rest : isRest (['p', 'l', 'a', 'n', ':'] ++ path) = true :=
    rest_of_path _ whole (by
      intro rest same
      cases same)
  rw [plan_head_eq]
  change (isScheme ['u', 'r', 'n'] && isRest (['p', 'l', 'a', 'n', ':'] ++ path)) = true
  rw [rest]
  rfl

/-- A text that holds what a name keeps, and escapes, holds no other character. -/
theorem spelled_free (path : Text) (reads : spelled isKept path = true) (c : Char)
    (picked : mustEncode c = true) (percent : c ≠ '%') (hex : isHex c = false) : c ∉ path := by
  intro member
  rcases mem_of_spelled isKept path reads c member with kept | same | digit
  · rw [isKept, picked] at kept
    cases kept
  · exact percent same
  · rw [hex] at digit
    cases digit

/-- Every IRI of a plan is a valid one, with no query and no fragment, and each of its percent
signs starts an escape. -/
theorem Part.iri_well_formed (planId : Text) (part : Part) :
    isIri (part.iri planId) = true ∧ '?' ∉ part.iri planId ∧ '#' ∉ part.iri planId ∧
      Escaped (part.iri planId) := by
  have reads := part.behind_spelled planId
  have head : spelled isKept planHead = true := by
    rw [plan_head_eq]
    rfl
  have whole := spelled_append isKept planHead _ head reads
  rw [Part.iri_eq]
  exact ⟨plan_iri_valid _ reads, spelled_free _ whole '?' (by rfl) (by decide) (by rfl),
    spelled_free _ whole '#' (by rfl) (by decide) (by rfl), .of_spelled isKept _ whole⟩

/-- What stands between an id and what follows it. -/
def marks : List Text := [stepMark, varMark, forkMark, inputMark]

/-- A word between two colons, with no colon inside. -/
def IsMark (mark : Text) : Prop := ∃ word, mark = ':' :: (word ++ [':']) ∧ ':' ∉ word

/-- Each mark in the list of marks is one. -/
theorem marks_are_marks (mark : Text) (member : mark ∈ marks) : IsMark mark := by
  simp only [marks, List.mem_cons, List.not_mem_nil, or_false] at member
  rcases member with rfl | rfl | rfl | rfl
  · exact ⟨['s', 't', 'e', 'p'], step_mark_eq, by decide⟩
  · exact ⟨['v', 'a', 'r'], var_mark_eq, by decide⟩
  · exact ⟨['f', 'o', 'r', 'k'], fork_mark_eq, by decide⟩
  · exact ⟨['i', 'n', 'p', 'u', 't'], input_mark_eq, by decide⟩

/-- So is the mark of an argument, which the list leaves out. -/
theorem arg_is_mark : IsMark argMark := ⟨['a', 'r', 'g'], arg_mark_eq, by decide⟩

/-- Nothing, or a colon first. -/
def OpensWithColon (text : Text) : Prop := text = [] ∨ ∃ rest, text = ':' :: rest

/-- Where a text that opens with a mark is split before a colon or at its end, the mark is in
the first piece, but perhaps for its own last colon. -/
theorem mark_in_piece (mark rest piece behind : Text) (marked : IsMark mark)
    (split : mark ++ rest = piece ++ behind) (some : piece ≠ []) (colon : OpensWithColon behind) :
    mark <+: piece ++ [':'] := by
  rcases List.append_eq_append_iff.mp split with ⟨more, rfl, _⟩ | ⟨more, rfl, ends⟩
  · rw [List.append_assoc]
    exact List.prefix_append _ _
  · cases more with
    | nil => exact ⟨[':'], by rw [List.append_nil]⟩
    | cons c more =>
      have first : c = ':' := by
        rcases colon with rfl | ⟨rest', rfl⟩
        · cases ends
        · exact (List.cons.inj ends).1.symm
      subst first
      obtain ⟨word, opens, plain⟩ := marked
      cases piece with
      | nil => exact absurd rfl some
      | cons own piece =>
        -- the word holds no colon, so the one behind the piece is the mark's last
        have inner : piece ++ ':' :: more = word ++ [':'] := (List.cons.inj opens).2
        have last : more = [] := by
          rcases List.append_eq_append_iff.mp inner with ⟨between, rfl, ends'⟩ | ⟨_, _, ends'⟩
          · cases between with
            | nil => exact (List.cons.inj ends').2
            | cons c between =>
              rw [← (List.cons.inj ends').1] at plain
              exact absurd (List.mem_append_right _ List.mem_cons_self) plain
          · have length := congrArg List.length ends'
            simp only [List.length_append, List.length_cons, List.length_nil] at length
            exact List.length_eq_zero_iff.mp (by omega)
        subst last
        exact List.prefix_refl _

/-- A number is read back from its digits. -/
theorem digits_injective (left right : Nat) (same : Nat.toDigits 10 left = Nat.toDigits 10 right) :
    left = right := by
  have read := congrArg (fun digits => Nat.ofDigitChars 10 digits 0) same
  simpa only [Nat.ofDigitChars_ten_toDigits] using read

/-- Digits hold no colon. -/
theorem digits_no_colon (n : Nat) : ':' ∉ Nat.toDigits 10 n := by
  intro member
  have digit : ':'.isDigit = true :=
    Nat.isDigit_of_mem_toDigits (by decide) (by decide) member
  cases digit

/-- A number ends where a colon follows, or nothing. -/
theorem digits_split (left right : Nat) (one two : Text) (colon : OpensWithColon one)
    (colon' : OpensWithColon two)
    (same : Nat.toDigits 10 left ++ one = Nat.toDigits 10 right ++ two) :
    left = right ∧ one = two := by
  have cut : ∀ (n : Nat) (rest : Text), OpensWithColon rest →
      (Nat.toDigits 10 n ++ rest).takeWhile (· ≠ ':') = Nat.toDigits 10 n := by
    intro n rest opens
    have every : ∀ c ∈ Nat.toDigits 10 n, decide (c ≠ ':') = true := by
      intro c member
      exact decide_eq_true fun colon => digits_no_colon n (colon ▸ member)
    rw [List.takeWhile_append_of_pos every]
    rcases opens with rfl | ⟨rest, rfl⟩
    · exact List.append_nil _
    · exact List.append_nil _
  have first := cut left one colon
  rw [same, cut right two colon'] at first
  have number : left = right := digits_injective _ _ first.symm
  subst number
  exact ⟨rfl, List.append_cancel_left same⟩

/-- The letter behind the first colon tells the kinds apart, but a step from its arguments. -/
def Part.letter : Part → Option Char
  | process => none
  | step _ => some 's'
  | var _ => some 'v'
  | fork _ => some 'f'
  | input _ => some 'i'
  | argument _ _ => some 's'

/-- The letter behind a tail's colon tells what the part is. -/
theorem Part.tail_letter (part : Part) : part.tail[1]? = part.letter := by
  cases part with
  | process => rfl
  | step n => rw [Part.tail, step_mark_eq]; rfl
  | var name => rw [Part.tail, var_mark_eq]; rfl
  | fork n => rw [Part.tail, fork_mark_eq]; rfl
  | input name => rw [Part.tail, input_mark_eq]; rfl
  | argument n name => rw [Part.tail, step_mark_eq]; rfl

/-- An argument's tail goes on with a colon behind its step's number. -/
theorem arg_opens (name : Text) : OpensWithColon (argMark ++ encodeName name) := by
  rw [arg_mark_eq]
  exact .inr ⟨_, rfl⟩

/-- A named argument has a tail. -/
theorem arg_not_empty (name : Text) : argMark ++ encodeName name ≠ [] := by
  rw [arg_mark_eq]
  exact List.cons_ne_nil _ _

/-- Behind one id, two parts are written alike only if they are one. -/
theorem Part.tail_injective (left right : Part) (same : left.tail = right.tail) :
    left = right := by
  have letters : left.letter = right.letter := by
    rw [← left.tail_letter, same, right.tail_letter]
  have number : ∀ {n m : Nat} {one two : Text}, OpensWithColon one → OpensWithColon two →
      stepMark ++ (Nat.toDigits 10 n ++ one) = stepMark ++ (Nat.toDigits 10 m ++ two) →
      n = m ∧ one = two :=
    fun colon colon' same => digits_split _ _ _ _ colon colon' (List.append_cancel_left same)
  cases left <;> cases right <;> try cases letters
  case process.process => rfl
  case step.step left right => rw [digits_injective left right (List.append_cancel_left same)]
  case step.argument left right name =>
    rw [Part.tail, Part.tail, ← List.append_nil (Nat.toDigits 10 left)] at same
    exact absurd (number (.inl rfl) (arg_opens name) same).2.symm (arg_not_empty name)
  case var.var left right => rw [encode_name_injective (List.append_cancel_left same)]
  case fork.fork left right => rw [digits_injective left right (List.append_cancel_left same)]
  case input.input left right => rw [encode_name_injective (List.append_cancel_left same)]
  case argument.step left name right =>
    rw [Part.tail, Part.tail, ← List.append_nil (Nat.toDigits 10 right)] at same
    exact absurd (number (arg_opens name) (.inl rfl) same).2 (arg_not_empty name)
  case argument.argument left name right name' =>
    obtain ⟨rfl, names⟩ := number (arg_opens name) (arg_opens name') same
    rw [encode_name_injective (List.append_cancel_left names)]

/-- The second id, a colon behind it or not, is spelled as a part of the first one's plan. -/
def RunsUnder (shorter longer : Text) : Prop :=
  ∃ part : Part, part ≠ .process ∧
    (part.iri shorter = processIri longer ∨ part.iri shorter = processIri longer ++ [':'])

/-- No escape holds a colon. -/
theorem encode_one_colon (c : Char) : encodeName [c] = [c] ∨ ':' ∉ encodeName [c] := by
  cases kept : mustEncode c with
  | false => exact .inl (encode_kept c kept)
  | true =>
    refine .inr fun member => ?_
    rcases mem_encode_where mustEncode [c] ':' member with ⟨own, plain⟩ | same | digit
    · rw [List.mem_singleton.mp own, kept] at plain
      cases plain
    · cases same
    · cases digit

/-- What stands before a colon of an encoded name is an encoded name. -/
theorem encode_name_split (name before after : Text)
    (same : encodeName name = before ++ ':' :: after) :
    ∃ start, encodeName start = before := by
  induction name generalizing before with
  | nil =>
    have empty : ([] : Text) = before ++ ':' :: after := same
    cases before <;> cases empty
  | cons c name ih =>
    have split : encodeName [c] ++ encodeName name = before ++ ':' :: after :=
      (encode_name_append [c] name).symm.trans same
    rcases List.append_eq_append_iff.mp split with ⟨more, rfl, further⟩ | ⟨more, whole, colon⟩
    · obtain ⟨start, rfl⟩ := ih more further
      exact ⟨c :: start, encode_name_append [c] start⟩
    · cases more with
      | nil =>
        rw [List.append_nil] at whole
        exact ⟨[c], whole⟩
      | cons first more =>
        have opens : first = ':' := (List.cons.inj colon).1.symm
        subst opens
        rcases encode_one_colon c with own | none
        · rw [own] at whole
          cases before with
          | nil => exact ⟨[], rfl⟩
          | cons own before =>
            have rest := (List.cons.inj whole).2
            cases before <;> cases rest
        · rw [whole] at none
          exact absurd (List.mem_append_right _ List.mem_cons_self) none

/-- A mark and an encoded name behind it, cut before a colon: the first piece is the mark with
a name behind it, but perhaps for the mark's last colon. -/
theorem named_piece (mark name piece behind : Text) (marked : IsMark mark)
    (split : mark ++ encodeName name = piece ++ ':' :: behind) (some : piece ≠ []) :
    ∃ start, mark ++ encodeName start = piece ∨ mark ++ encodeName start = piece ++ [':'] := by
  have inside := mark_in_piece mark _ piece _ marked split some (.inr ⟨behind, rfl⟩)
  rcases List.prefix_concat_iff.mp inside with whole | ⟨more, rfl⟩
  · exact ⟨[], .inr ((List.append_nil _).trans whole)⟩
  · rw [List.append_assoc] at split
    obtain ⟨start, rfl⟩ := encode_name_split name more behind (List.append_cancel_left split)
    exact ⟨start, .inl rfl⟩

/-- A part's tail that is not empty opens with a colon and a letter, and the letter is not the
one an argument's mark has. -/
theorem Part.tail_starts (part : Part) (other : part ≠ .process) :
    ∃ c rest, part.tail = ':' :: c :: rest ∧ c.isDigit = false ∧ c ≠ 'a' := by
  cases part with
  | process => exact absurd rfl other
  | step n =>
    rw [Part.tail, step_mark_eq]
    exact ⟨'s', _, rfl, rfl, by decide⟩
  | var name =>
    rw [Part.tail, var_mark_eq]
    exact ⟨'v', _, rfl, rfl, by decide⟩
  | fork n =>
    rw [Part.tail, fork_mark_eq]
    exact ⟨'f', _, rfl, rfl, by decide⟩
  | input name =>
    rw [Part.tail, input_mark_eq]
    exact ⟨'i', _, rfl, rfl, by decide⟩
  | argument n name =>
    rw [Part.tail, step_mark_eq]
    exact ⟨'s', _, rfl, rfl, by decide⟩

/-- What begins with a number's digits begins with a digit. -/
theorem digits_first (n : Nat) (behind : Text) (c : Char) (rest : Text)
    (same : Nat.toDigits 10 n ++ behind = c :: rest) : c.isDigit = true := by
  cases digits : Nat.toDigits 10 n with
  | nil => exact absurd digits Nat.toDigits_ne_nil
  | cons first more =>
    rw [digits] at same
    have member : c ∈ Nat.toDigits 10 n := by
      rw [digits, ← (List.cons.inj same).1]
      exact List.mem_cons_self
    exact Nat.isDigit_of_mem_toDigits (by decide) (by decide) member

/-- A mark and a number behind it are not cut before a part's colon. -/
theorem number_uncut (mark : Text) (n : Nat) (behind piece : Text) (c : Char) (rest : Text)
    (marked : IsMark mark) (letter : c.isDigit = false) (some : piece ≠ [])
    (split : mark ++ (Nat.toDigits 10 n ++ behind) = piece ++ ':' :: c :: rest) :
    ∃ more, piece = mark ++ (Nat.toDigits 10 n ++ more) ∧ behind = more ++ ':' :: c :: rest := by
  have inside := mark_in_piece mark _ piece _ marked split some (.inr ⟨_, rfl⟩)
  rcases List.prefix_concat_iff.mp inside with whole | ⟨more, rfl⟩
  · rw [whole, List.append_assoc] at split
    have first := digits_first n behind c rest (List.cons.inj (List.append_cancel_left split)).2
    rw [letter] at first
    cases first
  · rw [List.append_assoc] at split
    rcases List.append_eq_append_iff.mp (List.append_cancel_left split) with
      ⟨further, rfl, same⟩ | ⟨further, digits, same⟩
    · exact ⟨further, rfl, same⟩
    · cases further with
      | nil => exact ⟨[], by rw [digits, List.append_nil, List.append_nil], same.symm⟩
      | cons own further =>
        have colon : ':' ∈ Nat.toDigits 10 n := by
          rw [digits, (List.cons.inj same).1]
          exact List.mem_append_right _ List.mem_cons_self
        exact absurd colon (digits_no_colon n)

/-- Where a part's tail ends in another's, what stands before is a part's tail itself, but
perhaps for a colon at the end. -/
theorem Part.piece_is_tail (one two : Part) (piece : Text) (some : piece ≠ [])
    (split : one.tail = piece ++ two.tail) :
    ∃ part : Part, part ≠ .process ∧ (part.tail = piece ∨ part.tail = piece ++ [':']) := by
  by_cases last : two = .process
  · subst last
    have whole : one.tail = piece := split.trans (List.append_nil piece)
    refine ⟨one, ?_, .inl whole⟩
    rintro rfl
    exact some whole.symm
  obtain ⟨c, rest, starts, letter, apart⟩ := two.tail_starts last
  rw [starts] at split
  have marked := marks_are_marks
  cases one with
  | process => cases piece <;> cases split
  | step n =>
    rw [Part.tail, ← List.append_nil (Nat.toDigits 10 n)] at split
    obtain ⟨more, _, none⟩ := number_uncut stepMark n [] piece c rest
      (marked _ (by simp [marks])) letter some split
    cases more <;> cases none
  | fork n =>
    rw [Part.tail, ← List.append_nil (Nat.toDigits 10 n)] at split
    obtain ⟨more, _, none⟩ := number_uncut forkMark n [] piece c rest
      (marked _ (by simp [marks])) letter some split
    cases more <;> cases none
  | var name =>
    obtain ⟨start, named⟩ := named_piece varMark name piece _ (marked _ (by simp [marks])) split some
    exact ⟨.var start, by simp, named⟩
  | input name =>
    obtain ⟨start, named⟩ :=
      named_piece inputMark name piece _ (marked _ (by simp [marks])) split some
    exact ⟨.input start, by simp, named⟩
  | argument n name =>
    obtain ⟨more, rfl, behind⟩ := number_uncut stepMark n _ piece c rest
      (marked _ (by simp [marks])) letter some split
    have further : more ≠ [] := by
      rintro rfl
      rw [arg_mark_eq] at behind
      exact apart (List.cons.inj (List.cons.inj behind).2).1.symm
    obtain ⟨start, named⟩ := named_piece argMark name more _ arg_is_mark behind further
    refine ⟨.argument n start, by simp, named.imp ?_ ?_⟩
    · intro same
      rw [Part.tail, same]
    · intro same
      rw [Part.tail, same, List.append_assoc, List.append_assoc]

/-- Equal IRIs, the first id no longer than the second: one part of one plan, or the second id
runs under the first. -/
theorem runs_under_of_iri_eq (left right : Text) (one two : Part) (more : Text)
    (longer : idFragment right = idFragment left ++ more) (same : one.tail = more ++ two.tail) :
    (one = two ∧ idFragment left = idFragment right) ∨ RunsUnder left right := by
  by_cases none : more = []
  · subst none
    exact .inl ⟨one.tail_injective two same, (longer.trans (List.append_nil _)).symm⟩
  · obtain ⟨part, other, named⟩ := one.piece_is_tail two more none same
    refine .inr ⟨part, other, named.imp ?_ ?_⟩
    · intro same
      rw [Part.iri_eq, same, processIri, longer]
    · intro same
      rw [Part.iri_eq, same, processIri, longer, List.append_assoc, List.append_assoc]

/-- A part whose IRI ends with a colon holds a name, and the name may go on. -/
theorem Part.goes_on (planId : Text) (part : Part) (start : Text) (other : part ≠ .process)
    (ends : part.iri planId = start ++ [':']) :
    ∃ longer : Part, longer.iri planId = start ++ varMark ∧ longer ≠ .var [] := by
  have own : encodeName ['v', 'a', 'r', ':'] = ['v', 'a', 'r', ':'] := by decide
  have further : ∀ head : Text, ∀ name : Text, head ++ encodeName name = start ++ [':'] →
      head ++ encodeName (name ++ ['v', 'a', 'r', ':']) = start ++ varMark := by
    intro head name same
    rw [encode_name_append, own, ← List.append_assoc, same, List.append_assoc, var_mark_eq]
    rfl
  have number : ∀ head n, head ++ Nat.toDigits 10 n ≠ start ++ [':'] := by
    intro head n same
    have last := congrArg List.getLast? same
    rw [List.getLast?_append_of_ne_nil _ Nat.toDigits_ne_nil, List.getLast?_concat] at last
    exact digits_no_colon n (List.mem_of_getLast? last)
  cases part with
  | process => exact absurd rfl other
  | step n => exact absurd ends (number _ n)
  | fork n => exact absurd ends (number _ n)
  | var name => exact ⟨.var (name ++ ['v', 'a', 'r', ':']), further _ name ends, by simp⟩
  | input name => exact ⟨.input (name ++ ['v', 'a', 'r', ':']), further _ name ends, by simp⟩
  | argument n name =>
    exact ⟨.argument n (name ++ ['v', 'a', 'r', ':']), further _ name ends, by simp⟩

/-- Where an id runs under another, two different parts share an IRI. -/
theorem RunsUnder.shared {left right : Text} (under : RunsUnder left right) :
    ∃ one two : Part, one.iri left = two.iri right ∧ one ≠ two := by
  obtain ⟨part, other, whole | colon⟩ := under
  · exact ⟨part, .process, whole, other⟩
  · obtain ⟨longer, same, apart⟩ := part.goes_on left _ other colon
    refine ⟨longer, .var [], same.trans ?_, apart⟩
    rw [Part.iri, varIri]
    exact (List.append_nil _).symm

/-- The parts of two plans are told apart exactly when neither id runs under the other. -/
theorem told_apart_iff (left right : Text) :
    (∀ one two : Part, one.iri left = two.iri right →
      one = two ∧ idFragment left = idFragment right) ↔
    ¬RunsUnder left right ∧ ¬RunsUnder right left := by
  constructor
  · intro apart
    constructor
    · intro under
      obtain ⟨one, two, same, other⟩ := under.shared
      exact other (apart one two same).1
    · intro under
      obtain ⟨one, two, same, other⟩ := under.shared
      exact other (apart two one same.symm).1.symm
  · rintro ⟨first, second⟩ one two same
    rw [Part.iri_eq, Part.iri_eq] at same
    rcases List.append_eq_append_iff.mp (List.append_cancel_left same) with
      ⟨more, longer, ends⟩ | ⟨more, longer, ends⟩
    · exact (runs_under_of_iri_eq left right one two more longer ends).resolve_right first
    · obtain ⟨rfl, fragments⟩ :=
        (runs_under_of_iri_eq right left two one more longer ends).resolve_right second
      exact ⟨rfl, fragments.symm⟩

/-- No id runs under one of its own text: within one plan the parts are told apart. -/
theorem not_runs_under_same (left right : Text) (same : idFragment left = idFragment right) :
    ¬RunsUnder left right := by
  rintro ⟨part, other, named⟩
  obtain ⟨c, rest, starts, letter, _⟩ := part.tail_starts other
  have head : processIri right = planHead ++ idFragment left := by rw [processIri, same]
  rw [Part.iri_eq, starts, head, ← List.append_assoc] at named
  rcases named with whole | colon
  · have length := congrArg List.length whole
    simp only [List.length_append, List.length_cons] at length
    omega
  · have length := congrArg List.length colon
    simp only [List.length_append, List.length_cons, List.length_nil] at length
    omega

/-- Re-encoding an id changes nothing, every IRI of a plan is a valid one without a query or a
fragment whose percent signs start escapes, and two IRIs are of one part of one plan, unless one
of the two ids is spelled, with or without a colon behind it, as a part of the other's plan; for
such ids some IRI is shared. -/
theorem plan_iris_legal :
    (∀ planId, idFragment (idFragment planId) = idFragment planId) ∧
    (∀ planId (part : Part), isIri (part.iri planId) = true ∧ '?' ∉ part.iri planId ∧
      '#' ∉ part.iri planId ∧ Escaped (part.iri planId)) ∧
    (∀ left right, idFragment left = idFragment right →
      ∀ one two : Part, one.iri left = two.iri right → one = two) ∧
    ∀ left right, (∀ one two : Part, one.iri left = two.iri right →
        one = two ∧ idFragment left = idFragment right) ↔
      ¬RunsUnder left right ∧ ¬RunsUnder right left := by
  refine ⟨id_fragment_idempotent, Part.iri_well_formed, ?_, told_apart_iff⟩
  intro left right fragments one two same
  have apart := (told_apart_iff left right).mpr
    ⟨not_runs_under_same left right fragments, not_runs_under_same right left fragments.symm⟩
  exact (apart one two same).1

namespace SharedIri

/-- Two ids that only differ in the spelling of a stray percent sign. -/
theorem percent_respelled : idFragment "100%".toList = idFragment "100%25".toList := by decide

/-- A bound name and a fork of one plan, its id spelled either way, have different IRIs. -/
theorem var_is_no_fork : varIri "100%".toList "1".toList ≠ forkIri "100%25".toList 1 := by
  intro same
  have part : Part.var "1".toList = Part.fork 1 :=
    plan_iris_legal.2.2.1 _ _ percent_respelled (.var "1".toList) (.fork 1) same
  cases part

/-- The plan named `p:step:1` and the first step of the plan `p` have one IRI. -/
theorem step_is_a_plan : ¬∀ (left right : Text) (one two : Part), one.iri left = two.iri right →
    one = two ∧ idFragment left = idFragment right := by
  intro apart
  have same : Part.iri "p:step:1".toList .process = Part.iri "p".toList (.step 1) := by decide
  cases (apart _ _ _ _ same).1

end SharedIri

end Ikigai.Plan
