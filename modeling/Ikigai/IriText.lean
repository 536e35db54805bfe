import Ikigai.Text

/-!
# Texts inside an IRI

Two encoders put an author's text between angle brackets. An authored IRI keeps its
escapes, its fragment and its brackets, and only what the Turtle grammar forbids is
written as UTF-8 bytes in upper-case hex. A name is one path segment, so the percent sign
and everything else a segment cannot hold is written that way too, and a name reads back
from its encoding. The reader accepts either case of a hex digit.
-/

namespace Ikigai

/-- What an `IRIREF` cannot carry literally. -/
def isIriForbidden (c : Char) : Bool :=
  decide (c.toNat ≤ 0x20) || c ∈ ['<', '>', '"', '\x7b', '\x7d', '|', '^', '\x60', '\\']

def isIriSafe (text : Text) : Bool := !text.any isIriForbidden

/-- A hex digit, upper case. -/
def hexDigit (digit : Nat) : Char :=
  if digit < 10 then Char.ofNat (0x30 + digit) else Char.ofNat (0x37 + digit)

/-- One byte as an escape. -/
def percentEncode (byte : UInt8) : Text :=
  ['%', hexDigit (byte.toNat / 16), hexDigit (byte.toNat % 16)]

/-- Write the characters a test picks as their escaped bytes. -/
def encodeWhere (picks : Char → Bool) (text : Text) : Text :=
  text.flatMap fun c => if picks c then (String.utf8EncodeChar c).flatMap percentEncode else [c]

/-- For an authored IRI. -/
def escapeIriFragment (text : Text) : Text := encodeWhere isIriForbidden text

/-- A code point that no segment of an IRI admits though an `IRIREF` carries it: DEL, and
beyond ASCII whatever is not a `ucschar`. -/
def isNonUcschar (c : Char) : Bool :=
  let point := c.toNat
  if point < 0x80 then point = 0x7F
  else
    let inBmp := (0xA0 ≤ point && point ≤ 0xD7FF) || (0xF900 ≤ point && point ≤ 0xFDCF) ||
      (0xFDF0 ≤ point && point ≤ 0xFFEF)
    let aboveBmp := (0x10000 ≤ point && point ≤ 0xEFFFD) && point % 0x10000 ≤ 0xFFFD &&
      !(0xE0000 ≤ point && point ≤ 0xE0FFF)
    !(inBmp || aboveBmp)

/-- What a name cannot carry literally. -/
def mustEncode (c : Char) : Bool :=
  c = '%' || isIriForbidden c || c ∈ ['[', ']', '#', '?'] || isNonUcschar c

/-- For a name: one segment of an IRI. -/
def encodeName (text : Text) : Text := encodeWhere mustEncode text

/-- A hex digit of either case. -/
def hexValue (byte : UInt8) : Option Nat :=
  let digit := byte.toNat
  if 0x30 ≤ digit ∧ digit ≤ 0x39 then some (digit - 0x30)
  else if 0x41 ≤ digit ∧ digit ≤ 0x46 then some (digit - 0x37)
  else if 0x61 ≤ digit ∧ digit ≤ 0x66 then some (digit - 0x57)
  else none

/-- Decode the escapes; nothing for a malformed one. -/
def decodeBytes : List UInt8 → Option (List UInt8)
  | [] => some []
  | byte :: rest =>
    if byte = 0x25 then
      match rest with
      | first :: second :: rest =>
        match hexValue first, hexValue second with
        | some high, some low => (decodeBytes rest).map (UInt8.ofNat (16 * high + low) :: ·)
        | _, _ => none
      | _ => none
    else (decodeBytes rest).map (byte :: ·)

/-- Invert the encoding of a name. -/
def decodeSegment (text : Text) : Option Text := (decodeBytes text.asBytes).bind Text.ofBytes

/-- A hexadecimal digit is read back from its one byte. -/
theorem hex_value_digit (digit : Nat) (small : digit < 16) :
    ∃ byte, String.utf8EncodeChar (hexDigit digit) = [byte] ∧ hexValue byte = some digit := by
  interval_cases digit <;> exact ⟨_, rfl, rfl⟩

/-- An escape reads back as its byte. -/
theorem decode_percent (byte : UInt8) (rest : List UInt8) :
    decodeBytes ((percentEncode byte).flatMap String.utf8EncodeChar ++ rest) =
      (decodeBytes rest).map (byte :: ·) := by
  have small : byte.toNat < 256 := byte.toNat_lt
  obtain ⟨first, written, high⟩ := hex_value_digit (byte.toNat / 16) (by omega)
  obtain ⟨second, written', low⟩ := hex_value_digit (byte.toNat % 16) (by omega)
  have percent : String.utf8EncodeChar '%' = [0x25] := rfl
  have whole : UInt8.ofNat (16 * (byte.toNat / 16) + byte.toNat % 16) = byte := by
    rw [Nat.div_add_mod, UInt8.ofNat_toNat]
  simp only [percentEncode, List.flatMap_cons, List.flatMap_nil, percent, written, written',
    List.cons_append, List.nil_append, decodeBytes, high, low, whole, if_pos]

/-- Bytes written as escapes read back. -/
theorem decode_escapes (bytes rest : List UInt8) :
    decodeBytes ((bytes.flatMap percentEncode).flatMap String.utf8EncodeChar ++ rest) =
      (decodeBytes rest).map (bytes ++ ·) := by
  induction bytes with
  | nil => simp
  | cons byte bytes ih =>
    rw [List.flatMap_cons, List.flatMap_append, List.append_assoc, decode_percent, ih,
      Option.map_map]
    rfl

/-- Bytes without a percent sign are kept. -/
theorem decode_plain (bytes rest : List UInt8) (plain : ∀ byte ∈ bytes, byte ≠ 0x25) :
    decodeBytes (bytes ++ rest) = (decodeBytes rest).map (bytes ++ ·) := by
  induction bytes with
  | nil => simp
  | cons byte bytes ih =>
    have kept : decodeBytes (byte :: (bytes ++ rest)) =
        (decodeBytes (bytes ++ rest)).map (byte :: ·) := by
      rw [decodeBytes.eq_def]
      exact if_neg (plain byte List.mem_cons_self)
    rw [List.cons_append, kept,
      ih fun other member => plain other (List.mem_cons_of_mem byte member), Option.map_map]
    rfl

/-- No byte of a character is a percent sign but the sign's own. -/
theorem bytes_not_percent (c : Char) (other : c ≠ '%') :
    ∀ byte ∈ String.utf8EncodeChar c, byte ≠ 0x25 := by
  have value : c.val.toNat ≠ 0x25 := fun same => other (Char.ext (UInt32.toNat_inj.mp same))
  intro byte member same
  have number : byte.toNat = 0x25 := by rw [same]; rfl
  simp only [String.utf8EncodeChar] at member
  split at member
  · rw [List.mem_singleton.mp member, UInt8.toNat_ofNat'] at number
    omega
  · repeat' split at member
    all_goals
      simp only [List.mem_cons, List.not_mem_nil, or_false] at member
      rcases member with rfl | rfl | rfl | rfl <;>
        · rw [UInt8.toNat_ofNat'] at number
          omega

/-- A text is read as another, wherever it stands. -/
def Decodes (written read : Text) : Prop :=
  ∀ rest, decodeBytes (written.asBytes ++ rest) = (decodeBytes rest).map (read.asBytes ++ ·)

namespace Decodes

variable {written read written' read' : Text}

/-- Two texts that decode, decode one after the other. -/
theorem append (decodes : Decodes written read) (further : Decodes written' read') :
    Decodes (written ++ written') (read ++ read') := by
  intro rest
  have bytes : ∀ left right : Text, (left ++ right).asBytes = left.asBytes ++ right.asBytes :=
    fun _ _ => List.flatMap_append
  rw [bytes, bytes, List.append_assoc, decodes, further, Option.map_map]
  refine congrArg (Option.map · _) (funext fun tail => ?_)
  exact (List.append_assoc _ _ _).symm

/-- Nothing decodes to nothing. -/
theorem nil : Decodes [] [] := fun _ => Option.map_id.symm ▸ rfl

/-- What holds no percent sign is read as it is. -/
theorem plain (text : Text) (plain : '%' ∉ text) : Decodes text text := by
  intro rest
  refine decode_plain _ _ fun byte member => ?_
  obtain ⟨c, there, inside⟩ := List.mem_flatMap.mp member
  refine bytes_not_percent c ?_ byte inside
  rintro rfl
  exact plain there

/-- Whatever an encoder picks, the percent sign included, it is read back. -/
theorem encoded (picks : Char → Bool) (percent : picks '%' = true) (text : Text) :
    Decodes (encodeWhere picks text) text := by
  induction text with
  | nil => exact nil
  | cons c text ih =>
    have first : Decodes (if picks c then (String.utf8EncodeChar c).flatMap percentEncode else [c])
        [c] := by
      split
      · intro rest
        have bytes : Text.asBytes [c] = String.utf8EncodeChar c := List.flatMap_singleton _ _
        rw [bytes]
        exact decode_escapes _ rest
      · rename_i kept
        refine plain [c] fun member => ?_
        rw [List.mem_singleton.mp member] at percent
        exact kept percent
    exact first.append ih

/-- A segment that decodes is decoded. -/
theorem segment (decodes : Decodes written read) : decodeSegment written = some read := by
  have bytes := decodes []
  rw [List.append_nil] at bytes
  rw [decodeSegment, bytes]
  simp [decodeBytes, Text.of_bytes_as_bytes]

end Decodes

/-- A text encoded is decoded to itself, whichever of its characters were picked, if the percent
sign was. -/
theorem decode_encode_where (picks : Char → Bool) (percent : picks '%' = true) (text : Text) :
    decodeSegment (encodeWhere picks text) = some text :=
  (Decodes.encoded picks percent text).segment

/-- A name is read back from its encoding. -/
theorem decode_encode_name (name : Text) : decodeSegment (encodeName name) = some name :=
  decode_encode_where mustEncode (by decide) name

/-- Two names are encoded differently. -/
theorem encode_name_injective : Function.Injective encodeName := by
  intro left right same
  have read : decodeSegment (encodeName left) = decodeSegment (encodeName right) := by rw [same]
  rw [decode_encode_name, decode_encode_name] at read
  exact Option.some.inj read

/-- Two names are encoded one after the other. -/
@[simp] theorem encode_name_append (left right : Text) :
    encodeName (left ++ right) = encodeName left ++ encodeName right :=
  List.flatMap_append

end Ikigai
