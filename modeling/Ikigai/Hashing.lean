import Ikigai.Framing
import Ikigai.OrderedSet
import Ikigai.Text

/-!
# What is fed to the fingerprint hash

BLAKE3 is a dependency: only the bytes fed to it and the first eight bytes of its
digest matter here, so the hash is a parameter from bytes to a 64-bit value. Every
variable-length field is length-prefixed, which makes the fields delimit
themselves whenever their lengths fit in the eight bytes written for them.
-/

namespace Ikigai

/-- The first eight bytes of a BLAKE3 digest, read little-endian. -/
class Blake3 where
  digest : List UInt8 → UInt64

namespace Hashing

open Ikigai.Framing

/-- `u64::to_le_bytes`. -/
def toLeBytes (value : Nat) : List UInt8 :=
  (List.range 8).map fun i => UInt8.ofNat (value / 256 ^ i)

def feedU8 (value : UInt8) : List UInt8 := [value]

def feedBytes (bytes : List UInt8) : List UInt8 := toLeBytes bytes.length ++ bytes

def feedStr (text : Text) : List UInt8 := feedBytes text.asBytes

/-- A count a 64-bit machine can hold. -/
def Fits (value : Nat) : Prop := value < 2 ^ 64

/-- A string whose length in bytes a 64-bit machine can hold. -/
def StrFits (text : Text) : Prop := Fits text.asBytes.length

def feedU64 (value : Nat) : List UInt8 := toLeBytes value

def feedOption : Option Text → List UInt8
  | none => feedU8 0
  | some value => feedU8 1 ++ feedStr value

/-- A set of strings, after their count. -/
def feedSorted (set : OrderedSet Text) : List UInt8 :=
  feedU64 set.items.length ++ set.items.flatMap feedStr

def feedSet (values : List Text) : List UInt8 := feedSorted (OrderedSet.ofList values)

/-- Bytes compare as `Vec<u8>` does. -/
instance bytesOrder : LinearOrder (List UInt8) :=
  LinearOrder.lift' (fun bytes => bytes.map UInt8.toNat)
    (List.map_injective_iff.mpr fun _ _ same => UInt8.toNat_inj.mp same)

/-- A set of encoded items, after their count. -/
def feedEncoded (set : OrderedSet (List UInt8)) : List UInt8 :=
  feedU64 set.items.length ++ set.items.flatMap feedBytes

def feedItems (items : List (List UInt8)) : List UInt8 :=
  feedEncoded (OrderedSet.ofList items)

/-- A number takes eight bytes. -/
theorem to_le_bytes_length (value : Nat) : (toLeBytes value).length = 8 := by
  simp [toLeBytes]

/-- Eight base-256 digits determine a 64-bit value. -/
theorem to_le_bytes_injective (left right : Nat) (inLeft : Fits left) (inRight : Fits right)
    (same : toLeBytes left = toLeBytes right) : left = right := by
  simp only [toLeBytes, List.range, List.range.loop, List.map_cons, List.map_nil,
    List.cons.injEq, ← UInt8.toNat_inj, UInt8.toNat_ofNat'] at same
  unfold Fits at inLeft inRight
  omega

/-- A number that fits is told from what follows it. -/
theorem to_le_bytes_delimits : Delimits Fits toLeBytes :=
  Delimits.of_fixed_width Fits toLeBytes 8 to_le_bytes_length to_le_bytes_injective

/-- So are bytes, with their length in front, where the length fits. -/
theorem feed_bytes_delimits : Delimits (fun bytes : List UInt8 => Fits bytes.length) feedBytes :=
  Delimits.of_length_prefix Fits toLeBytes to_le_bytes_delimits

/-- So is a text. -/
theorem feed_str_delimits : Delimits StrFits feedStr :=
  feed_bytes_delimits.comap Text.asBytes Text.as_bytes_injective

/-- Two texts fed with more behind them are one text with the same behind it, as long as no more
than 2^64 bytes are fed. -/
theorem feed_str_splits : Splits (2 ^ 64) feedStr :=
  feed_str_delimits.splits _ fun text short => by
    rw [feedStr, feedBytes, List.length_append] at short
    unfold StrFits Fits
    omega

/-- The same is true of bytes. -/
theorem feed_bytes_splits : Splits (2 ^ 64) feedBytes :=
  feed_bytes_delimits.splits _ fun bytes short => by
    rw [feedBytes, List.length_append] at short
    unfold Fits
    omega

/-- It is true of a single byte. -/
theorem feed_u8_splits : Splits (2 ^ 64) feedU8 := by
  intro left right after after' _ same
  simpa [feedU8] using same

/-- It is true of a value that may be absent, by the byte that says whether it is. -/
theorem feed_option_splits : Splits (2 ^ 64) feedOption := by
  intro left right after after' below same
  cases left with
  | none =>
    cases right with
    | none => exact ⟨rfl, by simpa [feedOption, feedU8] using same⟩
    | some other => simp [feedOption, feedU8] at same
  | some value =>
    cases right with
    | none => simp [feedOption, feedU8] at same
    | some other =>
      simp only [feedOption, feedU8, List.nil_append, List.cons_append, List.cons.injEq,
        true_and] at same below
      rw [List.length_cons] at below
      obtain ⟨first, rest⟩ := feed_str_splits value other after after' (by omega) same
      exact ⟨by rw [first], rest⟩

/-- Something is fed of every text: its length at least. -/
theorem feed_str_writes (text : Text) : feedStr text ≠ [] := by
  intro nothing
  have width := congrArg List.length nothing
  simp [feedStr, feedBytes, to_le_bytes_length] at width

/-- Something is fed of any bytes. -/
theorem feed_bytes_writes (bytes : List UInt8) : feedBytes bytes ≠ [] := by
  intro nothing
  have width := congrArg List.length nothing
  simp [feedBytes, to_le_bytes_length] at width

/-- A set is told by its items in order. -/
theorem ordered_items_injective {α : Type} [LinearOrder α] :
    Function.Injective (OrderedSet.items : OrderedSet α → List α) :=
  fun _ _ => OrderedSet.ext

/-- A set can be split off what follows, by the number of its items and each of them. -/
theorem feed_sorted_splits : Splits (2 ^ 64) feedSorted :=
  (feed_str_splits.counted to_le_bytes_delimits feed_str_writes).comap OrderedSet.items
    ordered_items_injective

/-- So can a set of words that are fed encoded. -/
theorem feed_encoded_splits : Splits (2 ^ 64) feedEncoded :=
  (feed_bytes_splits.counted to_le_bytes_delimits feed_bytes_writes).comap OrderedSet.items
    ordered_items_injective

end Hashing

end Ikigai
