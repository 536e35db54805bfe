import Mathlib

/-!
# UTF-8

The validator of the standard library: a character is one byte below 128, or a first byte that
tells how many follow it and in which range each lies. It stops at the first byte that no
character has there, and tells whether more bytes could complete what it stopped in. The
characters' encodings are a code in which none begins another, so what is valid is read in
one way and the longest valid start of any bytes is where the validator stopped.
-/

namespace Ikigai

namespace Utf8

def tail : Nat × Nat := (0x80, 0xBF)

/-- The ranges of the bytes that follow a first byte. -/
def continuation (first : UInt8) : Option (List (Nat × Nat)) :=
  let byte := first.toNat
  if byte < 0x80 then some []
  else if byte < 0xC2 then none
  else if byte ≤ 0xDF then some [tail]
  else if byte = 0xE0 then some [(0xA0, 0xBF), tail]
  else if byte ≤ 0xEC then some [tail, tail]
  else if byte = 0xED then some [(0x80, 0x9F), tail]
  else if byte ≤ 0xEF then some [tail, tail]
  else if byte = 0xF0 then some [(0x90, 0xBF), tail, tail]
  else if byte ≤ 0xF3 then some [tail, tail, tail]
  else if byte = 0xF4 then some [(0x80, 0x8F), tail, tail]
  else none

def InRange (range : Nat × Nat) (byte : UInt8) : Prop :=
  range.1 ≤ byte.toNat ∧ byte.toNat ≤ range.2

instance (range : Nat × Nat) (byte : UInt8) : Decidable (InRange range byte) :=
  inferInstanceAs (Decidable (_ ∧ _))

/-- The bytes of one character. -/
inductive IsChar : List UInt8 → Prop where
  | bytes (first : UInt8) (ranges : List (Nat × Nat)) (rest : List UInt8)
      (leads : continuation first = some ranges) (follows : List.Forall₂ InRange ranges rest) :
      IsChar (first :: rest)

/-- The second byte of three, by the first. -/
def secondOfThree (first : Nat) : Nat × Nat :=
  (if first = 0xE0 then 0xA0 else 0x80, if first = 0xED then 0x9F else 0xBF)

/-- The second byte of four, by the first. -/
def secondOfFour (first : Nat) : Nat × Nat :=
  (if first = 0xF0 then 0x90 else 0x80, if first = 0xF4 then 0x8F else 0xBF)

/-- A first byte leads one of four kinds of character. -/
theorem continuation_iff (first : UInt8) (ranges : List (Nat × Nat)) :
    continuation first = some ranges ↔
      first.toNat < 0x80 ∧ ranges = [] ∨
      (0xC2 ≤ first.toNat ∧ first.toNat ≤ 0xDF) ∧ ranges = [tail] ∨
      (0xE0 ≤ first.toNat ∧ first.toNat ≤ 0xEF) ∧ ranges = [secondOfThree first.toNat, tail] ∨
      (0xF0 ≤ first.toNat ∧ first.toNat ≤ 0xF4) ∧
        ranges = [secondOfFour first.toNat, tail, tail] := by
  unfold continuation secondOfThree secondOfFour
  generalize first.toNat = byte
  dsimp only
  split_ifs <;> simp only [Option.some.injEq, false_iff, tail] <;>
    first
      | omega
      | (constructor
         · rintro rfl
           simp
           omega
         · rintro (⟨_, rfl⟩ | ⟨_, rfl⟩ | ⟨_, rfl⟩ | ⟨_, rfl⟩) <;> first | rfl | omega)

/-- A number below 256 is a byte. -/
theorem to_nat_of_small {value : Nat} (small : value < 256) : (UInt8.ofNat value).toNat = value := by
  rw [UInt8.toNat_ofNat', Nat.mod_eq_of_lt small]

/-- The byte of a byte's own number is that byte. -/
theorem of_nat_eq (byte : UInt8) {value : Nat} (same : value = byte.toNat) :
    UInt8.ofNat value = byte := by
  rw [same, UInt8.ofNat_toNat]

/-- A Unicode scalar value. -/
def Scalar (point : Nat) : Prop := point < 0xD800 ∨ 0xDFFF < point ∧ point < 0x110000

/-- What a character is encoded as is a character's bytes. -/
theorem is_char_encode (c : Char) : IsChar (String.utf8EncodeChar c) := by
  have scalar : Scalar c.val.toNat := c.valid
  unfold String.utf8EncodeChar
  dsimp only
  generalize c.val.toNat = point at scalar
  unfold Scalar at scalar
  split
  · refine .bytes _ [] [] ?_ .nil
    rw [continuation_iff, to_nat_of_small (by omega)]
    exact .inl ⟨by omega, rfl⟩
  · split
    · refine .bytes _ [tail] _ ?_ (.cons ?_ .nil)
      · rw [continuation_iff, to_nat_of_small (by omega)]
        exact .inr (.inl ⟨by omega, rfl⟩)
      · rw [InRange, to_nat_of_small (by omega), tail]
        omega
    · split
      · refine .bytes _ _ _ ((continuation_iff _ _).mpr (.inr (.inr (.inl ⟨?_, rfl⟩))))
          (.cons ?_ (.cons ?_ .nil))
        · rw [to_nat_of_small (by omega)]
          omega
        · rw [InRange, to_nat_of_small (by omega), to_nat_of_small (by omega), secondOfThree]
          dsimp only
          split <;> split <;> omega
        · rw [InRange, to_nat_of_small (by omega), tail]
          omega
      · refine .bytes _ _ _ ((continuation_iff _ _).mpr (.inr (.inr (.inr ⟨?_, rfl⟩))))
          (.cons ?_ (.cons ?_ (.cons ?_ .nil)))
        · rw [to_nat_of_small (by omega)]
          omega
        · rw [InRange, to_nat_of_small (by omega), to_nat_of_small (by omega), secondOfFour]
          dsimp only
          split <;> split <;> omega
        · rw [InRange, to_nat_of_small (by omega), tail]
          omega
        · rw [InRange, to_nat_of_small (by omega), tail]
          omega

/-- The character of a scalar value. -/
theorem char_of_scalar (point : Nat) (scalar : Scalar point) : ∃ c : Char, c.val.toNat = point := by
  have small : point < 2 ^ 32 := by
    unfold Scalar at scalar
    omega
  have same : (UInt32.ofNat point).toNat = point := by
    rw [UInt32.toNat_ofNat', Nat.mod_eq_of_lt small]
  exact ⟨⟨UInt32.ofNat point, by rw [UInt32.isValidChar, same]; exact scalar⟩, same⟩

/-- And a character's bytes are what some character is encoded as. -/
theorem encode_of_is_char {bytes : List UInt8} (whole : IsChar bytes) :
    ∃ c, String.utf8EncodeChar c = bytes := by
  obtain ⟨first, ranges, rest, leads, follows⟩ := whole
  rcases (continuation_iff first ranges).mp leads with
    ⟨one, rfl⟩ | ⟨two, rfl⟩ | ⟨three, rfl⟩ | ⟨four, rfl⟩
  · cases follows
    obtain ⟨c, point⟩ := char_of_scalar first.toNat (.inl (by omega))
    refine ⟨c, ?_⟩
    unfold String.utf8EncodeChar
    dsimp only
    rw [point, if_pos (by omega), of_nat_eq first rfl]
  · obtain ⟨second, _, range, none, rfl⟩ := List.forall₂_cons_left_iff.mp follows
    rw [List.forall₂_nil_left_iff.mp none]
    simp only [InRange, tail] at range
    obtain ⟨c, point⟩ := char_of_scalar
      ((first.toNat - 0xC0) * 64 + (second.toNat - 0x80)) (.inl (by omega))
    refine ⟨c, ?_⟩
    unfold String.utf8EncodeChar
    dsimp only
    rw [point, if_neg (by omega), if_pos (by omega), of_nat_eq first (by omega),
      of_nat_eq second (by omega)]
  · obtain ⟨second, _, range, others, rfl⟩ := List.forall₂_cons_left_iff.mp follows
    obtain ⟨third, _, range', none, rfl⟩ := List.forall₂_cons_left_iff.mp others
    rw [List.forall₂_nil_left_iff.mp none]
    simp only [InRange, tail, secondOfThree] at range range'
    have bounds : (first.toNat = 0xE0 → 0xA0 ≤ second.toNat) ∧
        (first.toNat = 0xED → second.toNat ≤ 0x9F) ∧ 0x80 ≤ second.toNat ∧
        second.toNat ≤ 0xBF := by
      split at range <;> split at range <;> omega
    obtain ⟨c, point⟩ := char_of_scalar
      ((first.toNat - 0xE0) * 4096 + (second.toNat - 0x80) * 64 + (third.toNat - 0x80))
      (by unfold Scalar; omega)
    refine ⟨c, ?_⟩
    unfold String.utf8EncodeChar
    dsimp only
    rw [point, if_neg (by omega), if_neg (by omega), if_pos (by omega),
      of_nat_eq first (by omega), of_nat_eq second (by omega),
      of_nat_eq third (by omega)]
  · obtain ⟨second, _, range, others, rfl⟩ := List.forall₂_cons_left_iff.mp follows
    obtain ⟨third, _, range', others', rfl⟩ := List.forall₂_cons_left_iff.mp others
    obtain ⟨fourth, _, range'', none, rfl⟩ := List.forall₂_cons_left_iff.mp others'
    rw [List.forall₂_nil_left_iff.mp none]
    simp only [InRange, tail, secondOfFour] at range range' range''
    have bounds : (first.toNat = 0xF0 → 0x90 ≤ second.toNat) ∧
        (first.toNat = 0xF4 → second.toNat ≤ 0x8F) ∧ 0x80 ≤ second.toNat ∧
        second.toNat ≤ 0xBF := by
      split at range <;> split at range <;> omega
    obtain ⟨c, point⟩ := char_of_scalar
      ((first.toNat - 0xF0) * 262144 + (second.toNat - 0x80) * 4096 +
        (third.toNat - 0x80) * 64 + (fourth.toNat - 0x80)) (by unfold Scalar; omega)
    refine ⟨c, ?_⟩
    unfold String.utf8EncodeChar
    dsimp only
    rw [point, if_neg (by omega), if_neg (by omega), if_neg (by omega),
      of_nat_eq first (by omega), of_nat_eq second (by omega),
      of_nat_eq third (by omega), of_nat_eq fourth (by omega)]

/-- Bytes that follow some ranges are as many as the ranges. -/
theorem follows_length {ranges : List (Nat × Nat)} {rest : List UInt8}
    (follows : List.Forall₂ InRange ranges rest) : rest.length = ranges.length :=
  follows.length_eq.symm

/-- A character takes four bytes at most. -/
theorem IsChar.length_le {bytes : List UInt8} (whole : IsChar bytes) : bytes.length ≤ 4 := by
  obtain ⟨c, rfl⟩ := encode_of_is_char whole
  rw [String.length_utf8EncodeChar]
  exact Char.utf8Size_le_four c

/-- A character takes a byte at least. -/
theorem IsChar.ne_nil {bytes : List UInt8} (whole : IsChar bytes) : bytes ≠ [] := by
  cases whole
  exact List.cons_ne_nil _ _

/-- No character's bytes begin another's. -/
theorem IsChar.eq_of_prefix {bytes others : List UInt8} (whole : IsChar bytes)
    (whole' : IsChar others) (begins : bytes <+: others) : bytes = others := by
  obtain ⟨first, ranges, rest, leads, follows⟩ := whole
  obtain ⟨first', ranges', rest', leads', follows'⟩ := whole'
  obtain ⟨same, _⟩ := List.cons_prefix_cons.mp begins
  subst same
  rw [leads] at leads'
  cases leads'
  exact begins.eq_of_length (by
    rw [List.length_cons, List.length_cons, follows_length follows, follows_length follows'])

/-- Nothing but whole characters. -/
inductive Valid : List UInt8 → Prop where
  | nil : Valid []
  | cons {char rest : List UInt8} (whole : IsChar char) (valid : Valid rest) : Valid (char ++ rest)

/-- Valid bytes are what some text is encoded as. -/
theorem valid_iff (bytes : List UInt8) :
    Valid bytes ↔ ∃ text : List Char, text.flatMap String.utf8EncodeChar = bytes := by
  constructor
  · intro valid
    induction valid with
    | nil => exact ⟨[], rfl⟩
    | cons whole _ ih =>
      obtain ⟨c, rfl⟩ := encode_of_is_char whole
      obtain ⟨text, rfl⟩ := ih
      exact ⟨c :: text, rfl⟩
  · rintro ⟨text, rfl⟩
    induction text with
    | nil => exact .nil
    | cons c text ih =>
      rw [List.flatMap_cons]
      exact .cons (is_char_encode c) ih

/-- Valid texts one after the other are valid. -/
theorem Valid.append {bytes others : List UInt8} (valid : Valid bytes) (valid' : Valid others) :
    Valid (bytes ++ others) := by
  induction valid with
  | nil => exact valid'
  | cons whole _ ih =>
    rw [List.append_assoc]
    exact .cons whole ih

/-- And any number of them. -/
theorem Valid.flatten {pieces : List (List UInt8)} (valid : ∀ piece ∈ pieces, Valid piece) :
    Valid pieces.flatten := by
  induction pieces with
  | nil => exact .nil
  | cons piece pieces ih =>
    rw [List.flatten_cons]
    exact (valid piece List.mem_cons_self).append
      (ih fun other inside => valid other (List.mem_cons_of_mem _ inside))

/-- What is valid is read in one way: of valid bytes with a valid start the rest is valid. -/
theorem Valid.rest {bytes others : List UInt8} (valid : Valid bytes)
    (all : Valid (bytes ++ others)) : Valid others := by
  induction valid with
  | nil => exact all
  | @cons char rest whole _ ih =>
    generalize joined : char ++ rest ++ others = total at all
    cases all with
    | nil =>
      have empty := (List.append_eq_nil_iff.mp (List.append_eq_nil_iff.mp joined).1).1
      exact absurd empty whole.ne_nil
    | @cons char' rest' whole' valid' =>
      have same : char = char' := by
        have begins : char <+: char' ++ rest' := ⟨rest ++ others, by
          rw [← joined, List.append_assoc]⟩
        rcases List.prefix_or_prefix_of_prefix begins ⟨rest', rfl⟩ with begins | begins
        · exact whole.eq_of_prefix whole' begins
        · exact (whole'.eq_of_prefix whole begins).symm
      subst same
      rw [List.append_assoc] at joined
      apply ih
      rwa [List.append_cancel_left joined]

/-- Where a validator stopped: how many bytes before it are valid, and how many are no character
unless more of them could be one. -/
structure Utf8Error where
  validUpTo : Nat
  errorLen : Option Nat
deriving DecidableEq, Repr

/-- What is read where a character should stand: what follows it, nothing more to read, or how many
bytes are none. -/
inductive CharRead where
  | whole (rest : List UInt8)
  | ended
  | invalid (length : Nat)
deriving DecidableEq, Repr

/-- The bytes that follow a first one, each in its range. -/
def follow : List (Nat × Nat) → List UInt8 → Nat → CharRead
  | [], rest, _ => .whole rest
  | _ :: _, [], _ => .ended
  | range :: ranges, byte :: rest, read =>
    if InRange range byte then follow ranges rest (read + 1) else .invalid read

def readChar (first : UInt8) (rest : List UInt8) : CharRead :=
  match continuation first with
  | some ranges => follow ranges rest 1
  | none => .invalid 1

/-- Bytes found whole are those the ranges ask for, and the rest is what is left. -/
theorem follow_whole {ranges : List (Nat × Nat)} {bytes rest : List UInt8} {read : Nat}
    (read_ : follow ranges bytes read = .whole rest) :
    ∃ taken, bytes = taken ++ rest ∧ List.Forall₂ InRange ranges taken := by
  induction ranges generalizing bytes read with
  | nil =>
    cases read_
    exact ⟨[], rfl, .nil⟩
  | cons range ranges ih =>
    cases bytes with
    | nil => cases read_
    | cons byte bytes =>
      rw [follow] at read_
      split at read_
      · rename_i within
        obtain ⟨taken, rfl, follows⟩ := ih read_
        exact ⟨byte :: taken, rfl, .cons within follows⟩
      · cases read_

/-- A range that starts with a byte of it. -/
def Proper (range : Nat × Nat) : Prop := range.1 ≤ range.2 ∧ range.2 < 256

/-- The ranges a first byte asks for are all within a byte. -/
theorem continuation_proper {first : UInt8} {ranges : List (Nat × Nat)}
    (leads : continuation first = some ranges) : ∀ range ∈ ranges, Proper range := by
  have last : Proper tail := ⟨by decide, by decide⟩
  have three : Proper (secondOfThree first.toNat) := by
    unfold Proper secondOfThree
    dsimp only
    split_ifs <;> omega
  have four : Proper (secondOfFour first.toNat) := by
    unfold Proper secondOfFour
    dsimp only
    split_ifs <;> omega
  rcases (continuation_iff first ranges).mp leads with
    ⟨_, rfl⟩ | ⟨_, rfl⟩ | ⟨_, rfl⟩ | ⟨_, rfl⟩ <;> simp [last, three, four]

/-- The least byte of each range follows. -/
theorem least_follow {ranges : List (Nat × Nat)} (proper : ∀ range ∈ ranges, Proper range) :
    List.Forall₂ InRange ranges (ranges.map fun range => UInt8.ofNat range.1) := by
  induction ranges with
  | nil => exact .nil
  | cons range ranges ih =>
    rw [List.forall_mem_cons] at proper
    obtain ⟨ordered, small⟩ := proper.1
    refine .cons ?_ (ih proper.2)
    rw [InRange, to_nat_of_small (by omega)]
    exact ⟨le_rfl, ordered⟩

/-- Bytes that end too soon can be finished. -/
theorem follow_ended {ranges : List (Nat × Nat)} {bytes : List UInt8} {read : Nat}
    (proper : ∀ range ∈ ranges, Proper range) (read_ : follow ranges bytes read = .ended) :
    ∃ more, more ≠ [] ∧ List.Forall₂ InRange ranges (bytes ++ more) := by
  induction ranges generalizing bytes read with
  | nil => cases read_
  | cons range ranges ih =>
    cases bytes with
    | nil => exact ⟨_, List.cons_ne_nil _ _, least_follow proper⟩
    | cons byte bytes =>
      rw [follow] at read_
      split at read_
      · rename_i within
        obtain ⟨more, some_, follows⟩ := ih (List.forall_mem_cons.mp proper).2 read_
        exact ⟨more, some_, .cons within follows⟩
      · cases read_

/-- Bytes that fail cannot, whatever comes behind them. -/
theorem follow_invalid {ranges : List (Nat × Nat)} {bytes : List UInt8} {read length : Nat}
    (read_ : follow ranges bytes read = .invalid length) (more taken : List UInt8)
    (follows : List.Forall₂ InRange ranges taken) : ¬taken <+: bytes ++ more := by
  induction ranges generalizing bytes read taken with
  | nil => cases read_
  | cons range ranges ih =>
    cases bytes with
    | nil => cases read_
    | cons byte bytes =>
      obtain ⟨other, taken, within, others, rfl⟩ := List.forall₂_cons_left_iff.mp follows
      rw [List.cons_append, List.cons_prefix_cons]
      rintro ⟨rfl, begins⟩
      rw [follow, if_pos within] at read_
      exact ih read_ taken others begins

/-- A character read whole is one, and the rest is what is left. -/
theorem read_char_whole {first : UInt8} {bytes rest : List UInt8}
    (read : readChar first bytes = .whole rest) :
    ∃ char, IsChar char ∧ first :: bytes = char ++ rest := by
  unfold readChar at read
  split at read
  · rename_i ranges leads
    obtain ⟨taken, rfl, follows⟩ := follow_whole read
    exact ⟨first :: taken, .bytes first ranges taken leads follows, rfl⟩
  · cases read

/-- Some bytes that a character begins with, and that are not the whole of it. -/
def Partial (bytes : List UInt8) : Prop := ∃ more, more ≠ [] ∧ IsChar (bytes ++ more)

/-- Some bytes that no character begins, whatever follows. -/
def Hopeless (bytes : List UInt8) : Prop := ∀ more char, IsChar char → ¬char <+: bytes ++ more

/-- A character cut off is the start of one. -/
theorem read_char_ended {first : UInt8} {bytes : List UInt8}
    (read : readChar first bytes = .ended) : Partial (first :: bytes) := by
  unfold readChar at read
  split at read
  · rename_i ranges leads
    obtain ⟨more, some_, follows⟩ := follow_ended (continuation_proper leads) read
    exact ⟨more, some_, .bytes first ranges _ leads follows⟩
  · cases read

/-- A byte that leads nowhere is hopeless. -/
theorem read_char_invalid {first : UInt8} {bytes : List UInt8} {length : Nat}
    (read : readChar first bytes = .invalid length) : Hopeless (first :: bytes) := by
  intro more char whole
  obtain ⟨first', ranges, rest, leads, follows⟩ := whole
  rw [List.cons_append, List.cons_prefix_cons]
  rintro ⟨rfl, begins⟩
  rw [readChar, leads] at read
  exact follow_invalid read more rest follows begins

/-- Reading a character leaves fewer bytes, so reading ends. -/
theorem read_char_shorter {first : UInt8} {bytes rest : List UInt8}
    (read : readChar first bytes = .whole rest) : rest.length < (first :: bytes).length := by
  obtain ⟨char, whole, same⟩ := read_char_whole read
  rw [same, List.length_append]
  exact Nat.lt_add_of_pos_left (List.length_pos_iff.mpr whole.ne_nil)

/-- `str::from_utf8`, from a position on. -/
def fromUtf8At (index : Nat) : List UInt8 → Except Utf8Error Unit
  | [] => .ok ()
  | first :: bytes =>
    match _ : readChar first bytes with
    | .whole rest => fromUtf8At (index + ((first :: bytes).length - rest.length)) rest
    | .ended => .error ⟨index, none⟩
    | .invalid length => .error ⟨index, some length⟩
termination_by bytes => bytes.length
decreasing_by exact read_char_shorter ‹_›

def fromUtf8 (bytes : List UInt8) : Except Utf8Error Unit := fromUtf8At 0 bytes

/-- What is accepted is valid. -/
theorem from_utf8_at_ok {index : Nat} {bytes : List UInt8}
    (accepted : fromUtf8At index bytes = .ok ()) : Valid bytes := by
  fun_induction fromUtf8At index bytes with
  | case1 => exact .nil
  | case2 index first bytes rest read ih =>
    obtain ⟨char, whole, same⟩ := read_char_whole read
    rw [same]
    exact .cons whole (ih accepted)
  | case3 => cases accepted
  | case4 => cases accepted

/-- What a refusal says: the bytes before are valid, and those that follow are a character's
beginning when no length is told, and no character's otherwise. -/
structure Refused (bytes good bad : List UInt8) (refusal : Utf8Error) (index : Nat) : Prop where
  split : bytes = good ++ bad
  valid : Valid good
  upTo : refusal.validUpTo = index + good.length
  unfinished : refusal.errorLen = none → bad ≠ [] ∧ Partial bad
  invalid : refusal.errorLen ≠ none → bad ≠ [] ∧ Hopeless bad

/-- What is refused has a valid front, as long as the refusal says, and bytes behind it that are
none. -/
theorem from_utf8_at_error {index : Nat} {bytes : List UInt8} {refusal : Utf8Error}
    (refused : fromUtf8At index bytes = .error refusal) :
    ∃ good bad, Refused bytes good bad refusal index := by
  fun_induction fromUtf8At index bytes with
  | case1 => cases refused
  | case2 index first bytes rest read ih =>
    obtain ⟨char, whole, same⟩ := read_char_whole read
    obtain ⟨good, bad, refusal⟩ := ih refused
    refine ⟨char ++ good, bad, ?_, .cons whole refusal.valid, ?_, refusal.unfinished,
      refusal.invalid⟩
    · rw [same, refusal.split, List.append_assoc]
    · rw [refusal.upTo, same, List.length_append, List.length_append]
      omega
  | case3 index first bytes read =>
    cases refused
    exact ⟨[], first :: bytes, rfl, .nil, rfl,
      fun _ => ⟨List.cons_ne_nil _ _, read_char_ended read⟩, fun told => absurd rfl told⟩
  | case4 index first bytes length read =>
    cases refused
    exact ⟨[], first :: bytes, rfl, .nil, rfl, nofun,
      fun _ => ⟨List.cons_ne_nil _ _, read_char_invalid read⟩⟩

/-- Bytes that no whole character begins. -/
def Stuck (bytes : List UInt8) : Prop := bytes ≠ [] ∧ ∀ char, IsChar char → ¬char <+: bytes

/-- A partial character is stuck: no whole one begins it. -/
theorem Partial.stuck {bytes : List UInt8} (some_ : bytes ≠ []) (unfinished : Partial bytes) :
    Stuck bytes := by
  refine ⟨some_, fun char whole begins => ?_⟩
  obtain ⟨more, further, all⟩ := unfinished
  have same := whole.eq_of_prefix all (begins.trans (List.prefix_append _ _))
  have long := begins.length_le
  rw [same, List.length_append] at long
  have positive := List.length_pos_iff.mpr further
  omega

/-- A partial character has three bytes at most. -/
theorem Partial.length_le {bytes : List UInt8} (unfinished : Partial bytes) :
    bytes.length ≤ 3 := by
  obtain ⟨more, further, all⟩ := unfinished
  have long := all.length_le
  have positive := List.length_pos_iff.mpr further
  rw [List.length_append] at long
  omega

/-- Hopeless bytes are stuck, whatever comes behind them. -/
theorem Hopeless.stuck {bytes : List UInt8} (some_ : bytes ≠ []) (hopeless : Hopeless bytes)
    (more : List UInt8) : Stuck (bytes ++ more) :=
  ⟨List.append_ne_nil_of_left_ne_nil some_ _, hopeless more⟩

/-- What is stuck has no valid beginning but the empty one. -/
theorem Stuck.nil_of_valid {bytes others : List UInt8} (stuck : Stuck bytes) (valid : Valid others)
    (begins : others <+: bytes) : others = [] := by
  cases valid with
  | nil => rfl
  | cons whole _ => exact absurd ((List.prefix_append _ _).trans begins) (stuck.2 _ whole)

/-- A number of bytes that is valid, and no larger one is. -/
structure LongestValid (bytes : List UInt8) (length : Nat) : Prop where
  inside : length ≤ bytes.length
  valid : Valid (bytes.take length)
  longest : ∀ other ≤ bytes.length, Valid (bytes.take other) → other ≤ length

/-- After valid bytes, where the rest is stuck, the longest valid start ends. -/
theorem longest_of_stuck {good bad : List UInt8} (valid : Valid good) (stuck : Stuck bad) :
    LongestValid (good ++ bad) good.length where
  inside := by
    rw [List.length_append]
    exact Nat.le_add_right _ _
  valid := by
    rw [List.take_left]
    exact valid
  longest other inside valid' := by
    by_contra later
    have longer : good.length ≤ other := by omega
    rw [List.take_append, List.take_of_length_le longer] at valid'
    have none := stuck.nil_of_valid (valid.rest valid') (List.take_prefix _ _)
    rw [List.take_eq_nil_iff] at none
    rcases none with none | none
    · omega
    · exact stuck.1 none

/-- A valid front does not help what is stuck behind it. -/
theorem not_valid_of_stuck {good bad : List UInt8} (valid : Valid good) (stuck : Stuck bad) :
    ¬Valid (good ++ bad) :=
  fun all => stuck.1 (stuck.nil_of_valid (valid.rest all) (List.prefix_refl _))

/-- The validator accepts what is valid, and otherwise tells the length of the longest valid
start. -/
theorem from_utf8_exact (bytes : List UInt8) :
    (fromUtf8 bytes = .ok () ↔ Valid bytes) ∧
      ∀ refusal, fromUtf8 bytes = .error refusal → LongestValid bytes refusal.validUpTo := by
  have told : ∀ refusal, fromUtf8 bytes = .error refusal →
      LongestValid bytes refusal.validUpTo ∧ ¬Valid bytes := by
    intro refusal refused
    obtain ⟨good, bad, refused⟩ := from_utf8_at_error refused
    have stuck : Stuck bad := by
      by_cases unfinished : refusal.errorLen = none
      · exact (refused.unfinished unfinished).2.stuck (refused.unfinished unfinished).1
      · have hopeless := refused.invalid unfinished
        simpa using hopeless.2.stuck hopeless.1 []
    rw [refused.upTo, refused.split, Nat.zero_add]
    exact ⟨longest_of_stuck refused.valid stuck, not_valid_of_stuck refused.valid stuck⟩
  refine ⟨⟨from_utf8_at_ok, fun valid => ?_⟩, fun refusal refused => (told refusal refused).1⟩
  cases outcome : fromUtf8 bytes with
  | ok => rfl
  | error refusal => exact absurd valid (told refusal outcome).2

end Utf8

end Ikigai
