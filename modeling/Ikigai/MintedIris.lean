import Ikigai.Contract
import Ikigai.Rfc3987

/-!
# Minted IRIs

An encoded name is a part of a path: each of its characters is one a path holds, or a byte
written as an escape. What is minted from encoded names behind fixed words is an IRI,
whatever the names hold.
-/

namespace Ikigai

open Rfc3987

def inPath (c : Char) : Bool := isPchar c || c = '/'

/-- A digit below sixteen is written as a hexadecimal one. -/
theorem hex_digit_is_hex (digit : Nat) (small : digit < 16) : isHex (hexDigit digit) = true := by
  interval_cases digit <;> rfl

/-- An escaped byte is spelled, whatever is allowed. -/
theorem percent_encode_spelled (allowed : Char → Bool) (byte : UInt8) :
    spelled allowed (percentEncode byte) = true := by
  have small : byte.toNat < 256 := byte.toNat_lt
  have high := hex_digit_is_hex (byte.toNat / 16) (by omega)
  have low := hex_digit_is_hex (byte.toNat % 16) (by omega)
  simp [percentEncode, spelled, high, low]

/-- So are any number of them. -/
theorem escapes_spelled (allowed : Char → Bool) (bytes : List UInt8) :
    spelled allowed (bytes.flatMap percentEncode) = true := by
  induction bytes with
  | nil => rfl
  | cons byte bytes ih =>
    rw [List.flatMap_cons]
    exact spelled_append allowed _ _ (percent_encode_spelled allowed byte) ih

/-- Every character below the ASCII bound is encoded, or a path holds it. -/
theorem ascii_in_path :
    ((List.range 0x80).all fun point =>
      mustEncode (Char.ofNat point) || inPath (Char.ofNat point)) = true := by
  decide

/-- A character that a name keeps is one a path holds. -/
theorem kept_in_path (c : Char) (kept : mustEncode c = false) : inPath c = true := by
  by_cases low : c.toNat < 0x80
  · have swept := List.all_eq_true.mp ascii_in_path c.toNat (List.mem_range.mpr low)
    rw [Char.ofNat_toNat, kept] at swept
    exact swept
  · simp only [mustEncode, isNonUcschar, if_neg low, Bool.or_eq_false_iff, Bool.not_eq_false',
      decide_eq_false_iff_not] at kept
    have general : isUcschar c = true := by
      simp only [isUcschar]
      exact kept.2
    simp only [inPath, isPchar, isUser, isUnreserved, general, Bool.or_true, Bool.true_or]

/-- A kept character stands for itself. -/
theorem kept_spelled (allowed : Char → Bool) (c : Char) (percent : c ≠ '%')
    (allows : allowed c = true) : spelled allowed [c] = true := by
  rw [spelled.eq_def]
  simp only [if_neg percent, allows, Bool.true_and]
  rfl

/-- What an encoder leaves out a path holds, so what it writes is a path. -/
theorem encode_where_spelled (picks : Char → Bool) (percent : picks '%' = true)
    (kept : ∀ c, picks c = false → inPath c = true) (text : Text) :
    isPath (encodeWhere picks text) = true := by
  induction text with
  | nil => rfl
  | cons c text ih =>
    rw [encodeWhere, List.flatMap_cons]
    refine spelled_append _ _ _ ?_ ih
    split
    · exact escapes_spelled _ _
    · rename_i plain
      rw [Bool.not_eq_true] at plain
      refine kept_spelled _ c ?_ (kept c plain)
      rintro rfl
      rw [percent] at plain
      cases plain

/-- An encoded name is a path. -/
theorem encode_name_path (name : Text) : isPath (encodeName name) = true :=
  encode_where_spelled mustEncode (by rfl) kept_in_path name

/-- An escape is a percent sign and hexadecimal digits. -/
theorem percent_encode_chars (byte : UInt8) (c : Char) (member : c ∈ percentEncode byte) :
    c = '%' ∨ isHex c = true := by
  have small : byte.toNat < 256 := byte.toNat_lt
  simp only [percentEncode, List.mem_cons, List.not_mem_nil, or_false] at member
  rcases member with rfl | rfl | rfl
  · exact .inl rfl
  · exact .inr (hex_digit_is_hex _ (by omega))
  · exact .inr (hex_digit_is_hex _ (by omega))

/-- An encoded text holds what it is kept of, and what escapes are written with. -/
theorem mem_encode_where (picks : Char → Bool) (text : Text) (c : Char)
    (member : c ∈ encodeWhere picks text) :
    (c ∈ text ∧ picks c = false) ∨ c = '%' ∨ isHex c = true := by
  obtain ⟨own, there, inside⟩ := List.mem_flatMap.mp member
  split at inside
  · obtain ⟨byte, _, written⟩ := List.mem_flatMap.mp inside
    exact .inr (percent_encode_chars byte c written)
  · rename_i plain
    rw [List.mem_singleton.mp inside]
    exact .inl ⟨there, Bool.not_eq_true _ ▸ plain⟩

/-- What a name is encoded for is not in it any more. -/
theorem encode_name_free (name : Text) (c : Char) (picked : mustEncode c = true)
    (percent : c ≠ '%') (hex : isHex c = false) : c ∉ encodeName name := by
  intro member
  rcases mem_encode_where mustEncode name c member with ⟨_, kept⟩ | same | digit
  · rw [picked] at kept
    cases kept
  · exact percent same
  · rw [hex] at digit
    cases digit

def mintHead : Text := "urn:ikigai:".toList

/-- A text that opens with the head every minted IRI has, and goes on as a path. -/
def Minted (text : Text) : Prop := ∃ path, text = mintHead ++ path ∧ isPath path = true

/-- A minted text with a path behind it is minted. -/
theorem Minted.append {text path : Text} (minted : Minted text) (further : isPath path = true) :
    Minted (text ++ path) := by
  obtain ⟨start, rfl, reads⟩ := minted
  exact ⟨start ++ path, List.append_assoc _ _ _, spelled_append _ _ _ reads further⟩

/-- A minted text with an encoded name behind it is minted. -/
theorem Minted.name {text : Text} (minted : Minted text) (name : Text) :
    Minted (text ++ encodeName name) :=
  minted.append (encode_name_path name)

/-- The head of all minted names, letter by letter. -/
theorem mint_head_eq :
    mintHead = ['u', 'r', 'n', ':', 'i', 'k', 'i', 'g', 'a', 'i', ':'] := by
  decide

/-- What is minted is an IRI. -/
theorem Minted.valid {text : Text} (minted : Minted text) : isIri text = true := by
  obtain ⟨path, rfl, reads⟩ := minted
  have word : isPath ['i', 'k', 'i', 'g', 'a', 'i', ':'] = true := by rfl
  have whole : isPath (['i', 'k', 'i', 'g', 'a', 'i', ':'] ++ path) = true :=
    spelled_append _ ['i', 'k', 'i', 'g', 'a', 'i', ':'] path word reads
  have rest : isRest (['i', 'k', 'i', 'g', 'a', 'i', ':'] ++ path) = true :=
    rest_of_path _ whole (by
      intro rest same
      cases same)
  rw [mint_head_eq]
  change (isScheme ['u', 'r', 'n'] && isRest (['i', 'k', 'i', 'g', 'a', 'i', ':'] ++ path)) = true
  rw [rest]
  rfl

/-- A digit below sixteen is written as a hexadecimal one in small letters too. -/
theorem lower_hex_is_hex (digit : Nat) (small : digit < 16) :
    isHex (lowerHexDigit digit) = true := by
  interval_cases digit <;> rfl

/-- A hexadecimal digit may stand in a path. -/
theorem hex_in_path (c : Char) (hex : isHex c = true) : inPath c = true := by
  have alphanumeric : c.isAlphanum = true := by
    simp only [isHex, Bool.or_eq_true, Bool.and_eq_true, decide_eq_true_eq] at hex
    simp only [Char.isAlphanum, Char.isAlpha, Char.isUpper, Char.isLower, Char.isDigit,
      Bool.or_eq_true, Bool.and_eq_true, decide_eq_true_eq] at hex ⊢
    rcases hex with (digit | lower) | upper
    · exact .inr digit
    · exact .inl (.inr ⟨lower.1, Nat.le_trans lower.2 (by decide)⟩)
    · exact .inl (.inl ⟨upper.1, Nat.le_trans upper.2 (by decide)⟩)
  simp only [inPath, isPchar, isUser, isUnreserved, alphanumeric, Bool.true_or]

/-- Allowed characters other than the percent sign spell themselves. -/
theorem plain_spelled (allowed : Char → Bool) (text : Text)
    (plain : ∀ c ∈ text, c ≠ '%' ∧ allowed c = true) : spelled allowed text = true := by
  induction text with
  | nil => rfl
  | cons c text ih =>
    obtain ⟨percent, allows⟩ := plain c List.mem_cons_self
    exact spelled_append allowed [c] text (kept_spelled allowed c percent allows)
      (ih fun other member => plain other (List.mem_cons_of_mem c member))

/-- A digest may stand in a path. -/
theorem ContractDigest.text_path (digest : ContractDigest) : isPath digest.text = true := by
  have tag : isPath "b3:".toList = true := by decide
  refine spelled_append _ "b3:".toList _ tag (plain_spelled _ _ ?_)
  intro c member
  obtain ⟨byte, _, inside⟩ := List.mem_flatMap.mp member
  have small : byte.toNat < 256 := byte.toNat_lt
  have hex : isHex c = true := by
    simp only [lowerHex, List.mem_cons, List.not_mem_nil, or_false] at inside
    rcases inside with rfl | rfl
    · exact lower_hex_is_hex _ (by omega)
    · exact lower_hex_is_hex _ (by omega)
  refine ⟨?_, hex_in_path c hex⟩
  rintro rfl
  cases hex

/-- A verb's segment may stand in a path. -/
theorem verb_segment_path (verb : Verb) : isPath (verbSegment verb) = true := by
  cases verb <;> decide +kernel

/-- A colon may stand in a path. -/
theorem colon_path : isPath ":".toList = true := by decide

/-- The IRI of a match is minted. -/
theorem match_iri_minted (verb : Verb) (pattern : Text) : Minted (matchIri verb pattern) := by
  have head : Minted matchPrefix := ⟨"match:".toList, by decide, by rfl⟩
  exact ((head.append (verb_segment_path verb)).append colon_path).name pattern

/-- The IRI of a contract is minted. -/
theorem contract_iri_minted (id : Text) (verb : Verb) (digest : ContractDigest) :
    Minted (contractIriOf id verb digest) := by
  have head : Minted contractPrefix :=
    ⟨"contract:".toList, by decide, by decide +kernel⟩
  exact ((((head.name id).append colon_path).append (verb_segment_path verb)).append
    colon_path).append digest.text_path

end Ikigai
