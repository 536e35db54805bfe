import Mathlib

/-!
# Text

A Rust string is the sequence of its characters. Comparison, prefix tests and
stripping act on that sequence as they act on valid UTF-8; lengths that the
source measures in bytes are `byteLen`. An IRI is the text it was parsed from:
the parser is a dependency, so validity is a parameter wherever the source parses.
-/

namespace Ikigai

/-- A string, by its characters. -/
abbrev Text := List Char

/-- An IRI compares, orders and hashes by its text. -/
abbrev Iri := Text

namespace Text

/-- `str::starts_with`. -/
def startsWith (text start : Text) : Bool := start.isPrefixOf text

/-- `str::strip_prefix`. -/
def stripPrefix (text start : Text) : Option Text :=
  if startsWith text start then some (text.drop start.length) else none

/-- `str::strip_suffix` of one character. -/
def stripSuffix (text : Text) (last : Char) : Option Text :=
  if text.getLast? = some last then some text.dropLast else none

instance decidableMem (text : Text) (texts : List Text) : Decidable (text ∈ texts) :=
  List.instDecidableMemOfLawfulBEq text texts

/-- `str::len`: the size in bytes. -/
def byteLen (text : Text) : Nat := (text.map Char.utf8Size).sum

/-- `str::as_bytes`. -/
def asBytes (text : Text) : List UInt8 := text.flatMap String.utf8EncodeChar

/-- `String::from_utf8`. -/
def ofBytes (bytes : List UInt8) : Option Text := bytes.toByteArray.utf8Decode?.map Array.toList

/-- `char::is_whitespace`: Unicode's `White_Space`. -/
def isWhitespace (c : Char) : Bool :=
  let point := c.toNat
  (0x09 ≤ point && point ≤ 0x0D) || (0x2000 ≤ point && point ≤ 0x200A) ||
    point ∈ [0x20, 0x85, 0xA0, 0x1680, 0x2028, 0x2029, 0x202F, 0x205F, 0x3000]

/-- `str::lines`: only a line that a newline ends loses a carriage return. -/
def lines (text : Text) : List Text :=
  let pieces := text.splitOnP (· = '\n')
  let ended := pieces.dropLast.map fun line => (stripSuffix line '\r').getD line
  let last := pieces.getLast?.getD []
  if last.isEmpty then ended else ended ++ [last]

/-- `str::split_whitespace`. -/
def splitWhitespace (text : Text) : List Text :=
  (text.splitOnP isWhitespace).filter fun word => !word.isEmpty

/-- `str::trim`. -/
def trim (text : Text) : Text := (text.dropWhile isWhitespace).rdropWhile isWhitespace

@[simp] theorem starts_with_iff (text start : Text) :
    startsWith text start = true ↔ start <+: text :=
  List.isPrefixOf_iff_prefix

theorem strip_prefix_eq_some (text start rest : Text) :
    stripPrefix text start = some rest ↔ text = start ++ rest := by
  unfold stripPrefix
  constructor
  · intro stripped
    split at stripped
    · rename_i opens
      obtain ⟨tail, rfl⟩ := (starts_with_iff text start).mp opens
      have same : tail = rest := by simpa using stripped
      rw [same]
    · cases stripped
  · rintro rfl
    simp

theorem strip_suffix_eq_some (text rest : Text) (last : Char) :
    stripSuffix text last = some rest ↔ text = rest ++ [last] := by
  unfold stripSuffix
  constructor
  · intro stripped
    split at stripped
    · rename_i ends
      obtain ⟨body, rfl⟩ := List.getLast?_eq_some_iff.mp ends
      have same : body = rest := by simpa using stripped
      rw [same]
    · cases stripped
  · rintro rfl
    simp

/-- A piece of a split holds no separator, and nothing the text does not hold. -/
theorem split_pieces (p : Char → Bool) (text : Text) :
    ∀ piece ∈ text.splitOnP p, ∀ c ∈ piece, p c = false ∧ c ∈ text := by
  induction text with
  | nil => simp [List.splitOnP_nil]
  | cons first rest ih =>
    rw [List.splitOnP_cons_eq_if_modifyHead]
    intro piece inside c inPiece
    split at inside
    · rcases List.mem_cons.mp inside with rfl | later
      · cases inPiece
      · exact (ih piece later c inPiece).imp_right (List.mem_cons_of_mem first)
    · rename_i plain
      obtain ⟨head, tail, pieces⟩ := List.exists_cons_of_ne_nil (List.splitOnP_ne_nil p rest)
      rw [pieces, List.modifyHead_cons, List.mem_cons] at inside
      rw [pieces] at ih
      rcases inside with rfl | later
      · rcases List.mem_cons.mp inPiece with rfl | inHead
        · exact ⟨Bool.eq_false_iff.mpr plain, List.mem_cons_self⟩
        · exact (ih head List.mem_cons_self c inHead).imp_right (List.mem_cons_of_mem first)
      · exact (ih piece (List.mem_cons_of_mem head later) c inPiece).imp_right
          (List.mem_cons_of_mem first)

/-- A text is read back from its bytes. -/
theorem of_bytes_as_bytes (text : Text) : ofBytes (asBytes text) = some text := by
  have decoded : (asBytes text).toByteArray.utf8Decode? = some text.toArray :=
    List.utf8Decode?_utf8Encode
  rw [ofBytes, decoded, Option.map_some]

/-- Encoding is injective: the characters decode back from the bytes. -/
theorem as_bytes_injective (left right : Text) (same : asBytes left = asBytes right) :
    left = right := by
  have decoded : ofBytes (asBytes left) = ofBytes (asBytes right) := by rw [same]
  rw [of_bytes_as_bytes, of_bytes_as_bytes] at decoded
  exact Option.some.inj decoded

end Text

/-- The IRI parser: its verdict on a text, and what it says of one it refuses. -/
class IriSyntax where
  isIri : Text → Bool
  refusal : Text → Text

/-- `Iri::parse`. -/
def Iri.parse [IriSyntax] (text : Text) : Option Iri :=
  if IriSyntax.isIri text then some text else none

end Ikigai
