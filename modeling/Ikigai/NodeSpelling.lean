import Ikigai.Check
import Ikigai.ContractContent

/-!
# How names are spelled in a node's IRI

What a node's IRI is written from is a row of glyphs: the characters of names and of the fixed
words between them, and the comma of a group's member, which is escaped so that it is not taken
for one that parts two members. A row of glyphs is read back from what it is written as, so two
IRIs are one exactly where their glyphs are.
-/

namespace Ikigai

namespace InputGroup

/-- What a group's member is written with: the comma too. -/
def pickMember (c : Char) : Bool := mustEncode c || c = ','

/-- No hexadecimal digit is a comma. -/
theorem hex_digit_not_comma (digit : Nat) (small : digit < 16) : hexDigit digit ≠ ',' := by
  interval_cases digit <;> decide

/-- No escape holds one. -/
theorem percent_without_comma (byte : UInt8) : ',' ∉ percentEncode byte := by
  have small : byte.toNat < 256 := byte.toNat_lt
  have high := hex_digit_not_comma (byte.toNat / 16) (by omega)
  have low := hex_digit_not_comma (byte.toNat % 16) (by omega)
  simp [percentEncode, high.symm, low.symm]

/-- Replacing a sign that is not there changes nothing. -/
theorem replace_absent (text : Text) (old : Char) (new : Text) (absent : old ∉ text) :
    Text.replace text old new = text := by
  induction text with
  | nil => rfl
  | cons c text ih =>
    have other : c ≠ old := fun same => absent (same ▸ List.mem_cons_self)
    rw [Text.replace, List.flatMap_cons, if_neg other]
    exact congrArg (c :: ·) (ih fun member => absent (List.mem_cons_of_mem c member))

/-- Two texts are replaced in one after the other. -/
theorem replace_append (left right : Text) (old : Char) (new : Text) :
    Text.replace (left ++ right) old new = Text.replace left old new ++ Text.replace right old new :=
  List.flatMap_append

/-- A member is written as a name is, and its commas as escapes too. -/
theorem member_segment_encodes (member : Text) :
    memberSegment member = encodeWhere pickMember member := by
  induction member with
  | nil => rfl
  | cons c member ih =>
    have ahead : memberSegment (c :: member) =
        Text.replace (if mustEncode c then (String.utf8EncodeChar c).flatMap percentEncode else [c])
          ',' "%2C".toList ++ memberSegment member := by
      rw [memberSegment, encodeName, encodeWhere, List.flatMap_cons, replace_append]
      rfl
    rw [ahead, ih, encodeWhere, encodeWhere, List.flatMap_cons]
    congr 1
    by_cases encoded : mustEncode c = true
    · rw [if_pos encoded, if_pos (by simp [pickMember, encoded])]
      refine replace_absent _ _ _ fun member => ?_
      obtain ⟨byte, _, inside⟩ := List.mem_flatMap.mp member
      exact percent_without_comma byte inside
    · rw [if_neg encoded]
      by_cases comma : c = ','
      · subst comma
        decide
      · rw [if_neg (by simp [pickMember, encoded, comma])]
        exact replace_absent _ _ _ (by simpa using Ne.symm comma)

/-- Two members have two segments. -/
theorem member_segment_injective : Function.Injective memberSegment := by
  intro left right same
  have read := congrArg decodeSegment same
  rw [member_segment_encodes, member_segment_encodes, decode_encode_where _ (by decide),
    decode_encode_where _ (by decide)] at read
  exact Option.some.inj read

/-- No member's segment holds a comma, so the commas between segments are told. -/
theorem member_without_comma (member : Text) : ',' ∉ memberSegment member := by
  rw [member_segment_encodes]
  intro inside
  obtain ⟨c, _, written⟩ := List.mem_flatMap.mp inside
  split at written
  · obtain ⟨byte, _, inside⟩ := List.mem_flatMap.mp written
    exact percent_without_comma byte inside
  · rename_i kept
    rw [← List.mem_singleton.mp written] at kept
    exact kept (by decide)

end InputGroup

/-- Joined items are read back, but for no item and one that is empty. -/
theorem joined_same (left right : List Text) (plain : ∀ item ∈ left, ',' ∉ item)
    (plain' : ∀ item ∈ right, ',' ∉ item)
    (same : ",".toList.intercalate left = ",".toList.intercalate right) :
    left = right ∨ (left = [] ∧ right = [[]]) ∨ (left = [[]] ∧ right = []) := by
  have alone : ∀ items : List Text, (∀ item ∈ items, ',' ∉ item) →
      ",".toList.intercalate items = [] → items = [] ∨ items = [[]] := by
    intro items plain nothing
    by_cases none : items = []
    · exact .inl none
    · have read := List.splitOn_intercalate (x := ',') plain none
      have comma : [','] = ",".toList := rfl
      rw [comma, nothing] at read
      exact .inr read.symm
  by_cases none : left = []
  · subst none
    rcases alone right plain' same.symm with rfl | rfl
    · exact .inl rfl
    · exact .inr (.inl ⟨rfl, rfl⟩)
  · by_cases none' : right = []
    · subst none'
      rcases alone left plain same with rfl | rfl
      · exact absurd rfl none
      · exact .inr (.inr ⟨rfl, rfl⟩)
    · left
      rw [← List.splitOn_intercalate (x := ',') plain none,
        ← List.splitOn_intercalate (x := ',') plain' none']
      exact congrArg (List.splitOn ',') same

/-- A character as it stands in a name, or the comma inside a member of a group. -/
inductive Glyph where
  | char (c : Char)
  | comma
deriving DecidableEq, Repr

namespace Glyph

def read : Glyph → Char
  | char c => c
  | comma => ','

def written : Glyph → Text
  | char c => encodeName [c]
  | comma => "%2C".toList

/-- Each glyph is read back as its character. -/
theorem decodes (glyph : Glyph) : Decodes glyph.written [glyph.read] := by
  cases glyph with
  | char c => exact Decodes.encoded mustEncode (by decide) [c]
  | comma => exact Decodes.encoded (fun _ => true) rfl [',']

/-- The two commas are the only glyphs that are read alike, and one of them is escaped. -/
theorem eq_of_read {left right : Glyph} {rest rest' : Text} (reads : left.read = right.read)
    (same : left.written ++ rest = right.written ++ rest') : left = right := by
  have escaped : "%2C".toList ++ rest ≠ encodeName [','] ++ rest' := by
    intro same
    have heads : '%' = ',' := Option.some.inj (congrArg List.head? same)
    exact absurd heads (by decide)
  have escaped' : encodeName [','] ++ rest ≠ "%2C".toList ++ rest' := by
    intro same
    have heads : ',' = '%' := Option.some.inj (congrArg List.head? same)
    exact absurd heads (by decide)
  cases left with
  | char c =>
    cases right with
    | char c' => exact congrArg char reads
    | comma =>
      have comma : c = ',' := reads
      subst comma
      exact absurd same escaped'
  | comma =>
    cases right with
    | char c' =>
      have comma : ',' = c' := reads
      subst comma
      exact absurd same escaped
    | comma => rfl

end Glyph

/-- A row of glyphs. -/
abbrev Spelling := List Glyph

namespace Spelling

def written (spelling : Spelling) : Text := spelling.flatMap Glyph.written

def read (spelling : Spelling) : Text := spelling.map Glyph.read

/-- A name, each character as it stands. -/
def name (text : Text) : Spelling := text.map .char

/-- A member of a group, its commas apart. -/
def member (text : Text) : Spelling := text.map fun c => if c = ',' then .comma else .char c

/-- A spelling is written one text after the other. -/
@[simp] theorem written_append (left right : Spelling) :
    written (left ++ right) = left.written ++ right.written :=
  List.flatMap_append

/-- What is written is read back. -/
theorem decodes (spelling : Spelling) : Decodes spelling.written spelling.read := by
  induction spelling with
  | nil => exact Decodes.nil
  | cons glyph rest ih => exact glyph.decodes.append ih

/-- Rows of glyphs that are written alike are the same. The characters are read back from what is
written, and of two glyphs that are read alike only one is escaped. -/
theorem written_injective : Function.Injective written := by
  intro left right same
  have reads : left.read = right.read := by
    have decoded := congrArg decodeSegment same
    rw [left.decodes.segment, right.decodes.segment] at decoded
    exact Option.some.inj decoded
  induction left generalizing right with
  | nil => exact (List.map_eq_nil_iff.mp reads.symm).symm
  | cons glyph rest ih =>
    cases right with
    | nil => cases reads
    | cons glyph' rest' =>
      obtain ⟨first, further⟩ := List.cons.inj reads
      obtain rfl := Glyph.eq_of_read first same
      exact congrArg (glyph :: ·) (ih ((List.append_right_inj _).mp same) further)

/-- A name is written as it is encoded. -/
theorem name_written (text : Text) : written (name text) = encodeName text := by
  induction text with
  | nil => rfl
  | cons c rest ih =>
    have one : encodeName (c :: rest) = encodeName [c] ++ encodeName rest :=
      encode_name_append [c] rest
    rw [one, ← ih]
    rfl

/-- A member is written with its commas escaped. -/
theorem member_written (text : Text) : written (member text) = InputGroup.memberSegment text := by
  rw [InputGroup.member_segment_encodes]
  induction text with
  | nil => rfl
  | cons c rest ih =>
    have one : encodeWhere InputGroup.pickMember (c :: rest) =
        encodeWhere InputGroup.pickMember [c] ++ encodeWhere InputGroup.pickMember rest := by
      simp only [encodeWhere, List.flatMap_cons, List.flatMap_nil, List.append_nil]
    rw [one, ← ih]
    refine congrArg (· ++ written (member rest)) ?_
    by_cases comma : c = ','
    · subst comma
      rfl
    · have picked : InputGroup.pickMember c = mustEncode c := by
        simp [InputGroup.pickMember, comma]
      simp only [if_neg comma, Glyph.written, encodeName, encodeWhere, List.flatMap_cons,
        List.flatMap_nil, picked]

/-- A name's glyphs tell the name. -/
theorem name_injective : Function.Injective name := by
  refine List.map_injective_iff.mpr ?_
  intro c c' same
  exact Glyph.char.inj same

/-- A name is cut where its glyphs are. -/
theorem name_split {text : Text} {front rest : Spelling} (split : name text = front ++ rest) :
    ∃ first second, text = first ++ second ∧ front = name first ∧ rest = name second := by
  obtain ⟨first, second, whole, front, back⟩ := List.map_eq_append_iff.mp split
  exact ⟨first, second, whole, front.symm, back.symm⟩

end Spelling

/-- What no name need escape is written as it is. -/
theorem encode_name_self (text : Text) (kept : (text.all fun c => !mustEncode c) = true) :
    encodeName text = text := by
  induction text with
  | nil => rfl
  | cons c rest ih =>
    rw [List.all_cons, Bool.and_eq_true, Bool.not_eq_true'] at kept
    rw [encodeName, encodeWhere, List.flatMap_cons, kept.1]
    exact congrArg (c :: ·) (ih kept.2)

end Ikigai
