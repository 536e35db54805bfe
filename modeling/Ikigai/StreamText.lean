import Ikigai.StreamRange
import Ikigai.Utf8

/-!
# Streamed text

`urn:stream:text` passes valid UTF-8 through unchanged. A buffer is validated whole; every other
body is validated chunk by chunk as it is read, and the incomplete character a chunk ends with
is held for the next. Read so, however the bytes are cut, they are passed on if they are
valid, and otherwise the reading ends at the byte where the whole stops being so.
-/

namespace Ikigai

namespace StreamText

open Utf8

/-- A malformed body: refused, naming the offset. -/
def malformed (offset : Nat) : Error :=
  .invalidArgument "content".toList ("the body is not valid UTF-8 (at byte ".toList ++
    Nat.toDigits 10 offset ++ ")".toList)

/-- A reader: what is left of the inner stream until that ended, the incomplete character the
last chunk ended with, and how many bytes were passed on. -/
structure Utf8Checked where
  inner : Option Range.Chunks
  carry : List UInt8
  passed : Nat
deriving DecidableEq

namespace Utf8Checked

def new (inner : Range.Chunks) : Utf8Checked := ⟨some inner, [], 0⟩

/-- Validate a chunk after the carried bytes: what to pass on and what is carried then, or the
offset of a byte that is invalid. -/
def admitChunk (carry : List UInt8) (passed : Nat) (chunk : List UInt8) :
    Except Nat (List UInt8 × List UInt8) :=
  let joined := if carry.isEmpty then chunk else carry ++ chunk
  match fromUtf8 joined with
  | .ok () => .ok (joined, [])
  | .error ⟨valid, none⟩ => .ok (joined.take valid, joined.drop valid)
  | .error ⟨valid, some _⟩ => .error (passed + valid)

/-- Poll an inner stream that has not ended, until there is something to pass on. -/
def pollOpen : Range.Chunks → List UInt8 → Nat →
    Option (Except Error (List UInt8)) × Utf8Checked
  | [], carry, passed =>
    if carry.isEmpty then (none, ⟨none, carry, passed⟩)
    else (some (.error (malformed passed)), ⟨none, carry, passed⟩)
  | .error failure :: _, carry, passed => (some (.error failure), ⟨none, carry, passed⟩)
  | .ok chunk :: rest, carry, passed =>
    match admitChunk carry passed chunk with
    | .error offset => (some (.error (malformed offset)), ⟨none, [], passed⟩)
    | .ok (valid, carry) =>
      if valid.isEmpty then pollOpen rest carry passed
      else (some (.ok valid), ⟨some rest, carry, passed + valid.length⟩)

/-- `poll_next`; once the inner stream has ended there is nothing more. -/
def pollNext (reader : Utf8Checked) : Option (Except Error (List UInt8)) × Utf8Checked :=
  match reader.inner with
  | none => (none, reader)
  | some inner => pollOpen inner reader.carry reader.passed

/-- The reader after so many polls. -/
def after (reader : Utf8Checked) : Nat → Utf8Checked
  | 0 => reader
  | polls + 1 => reader.pollNext.2.after polls

/-- What so many polls yield. -/
def items (reader : Utf8Checked) : Nat → List (Except Error (List UInt8))
  | 0 => []
  | polls + 1 => reader.pollNext.1.toList ++ reader.pollNext.2.items polls

/-- A reader whose inner stream ended stays as it is. -/
theorem after_ended {reader : Utf8Checked} (ended : reader.inner = none) (polls : Nat) :
    reader.after polls = reader ∧ reader.items polls = [] := by
  have stays : reader.pollNext = (none, reader) := by rw [pollNext, ended]
  induction polls with
  | zero => exact ⟨rfl, rfl⟩
  | succ polls ih =>
    rw [after, items, stays]
    exact ih

/-- A reader of these pieces that has passed some on: what was passed is whole characters, and
with what is carried it is all that was read. -/
structure Reading (pieces given : List (List UInt8)) (rest : List (List UInt8))
    (carry : List UInt8) (passed : Nat) : Prop where
  read : given.flatten ++ carry ++ rest.flatten = pieces.flatten
  whole : ∀ piece ∈ given, piece ≠ [] ∧ Valid piece
  count : passed = given.flatten.length
  held : carry ≠ [] → Partial carry

theorem Reading.valid {pieces given rest : List (List UInt8)} {carry : List UInt8} {passed : Nat}
    (reading : Reading pieces given rest carry passed) : Valid given.flatten :=
  Valid.flatten fun piece inside => (reading.whole piece inside).2

theorem Reading.held_le {pieces given rest : List (List UInt8)} {carry : List UInt8} {passed : Nat}
    (reading : Reading pieces given rest carry passed) : carry.length ≤ 3 := by
  by_cases empty : carry = []
  · rw [empty]
    decide
  · exact (reading.held empty).length_le

/-- What one chunk does: it ends the reading where the whole stops being valid, or what it
completes is whole characters and what is carried is not. -/
theorem Reading.admit_chunk {pieces given rest : List (List UInt8)} {carry chunk : List UInt8}
    {passed : Nat} (reading : Reading pieces given (chunk :: rest) carry passed) :
    (∃ offset, admitChunk carry passed chunk = .error offset ∧ ¬Valid pieces.flatten ∧
      LongestValid pieces.flatten offset) ∨
    ∃ valid carry', admitChunk carry passed chunk = .ok (valid, carry') ∧ Valid valid ∧
      carry ++ chunk = valid ++ carry' ∧ (carry' ≠ [] → Partial carry') := by
  have joined : (if carry.isEmpty then chunk else carry ++ chunk) = carry ++ chunk := by
    cases carry <;> rfl
  rw [admitChunk, joined]
  cases outcome : fromUtf8 (carry ++ chunk) with
  | ok done => exact .inr ⟨_, [], rfl, from_utf8_at_ok outcome, (List.append_nil _).symm, by simp⟩
  | error refusal =>
    obtain ⟨good, bad, refused⟩ := from_utf8_at_error outcome
    have upTo : refusal.validUpTo = good.length := by rw [refused.upTo, Nat.zero_add]
    obtain ⟨validUpTo, errorLen⟩ := refusal
    dsimp only at upTo
    subst upTo
    cases errorLen with
    | none =>
      refine .inr ⟨good, bad, ?_, refused.valid, refused.split,
        fun _ => (refused.unfinished rfl).2⟩
      dsimp only
      rw [refused.split, List.take_left, List.drop_left]
    | some length =>
      have hopeless := refused.invalid (by simp)
      have stuck := hopeless.2.stuck hopeless.1 rest.flatten
      have valid := reading.valid.append refused.valid
      have all : pieces.flatten = given.flatten ++ good ++ (bad ++ rest.flatten) := by
        rw [← reading.read, List.flatten_cons, ← List.append_assoc,
          List.append_assoc given.flatten, refused.split]
        simp only [List.append_assoc]
      refine .inl ⟨_, rfl, ?_⟩
      rw [all, reading.count, ← List.length_append]
      exact ⟨not_valid_of_stuck valid stuck, longest_of_stuck valid stuck⟩

/-- One poll of a reader of these pieces: something more is passed on, all of it was, or the
reading ends where the whole stops being valid. -/
inductive Polled (pieces given rest : List (List UInt8)) :
    Option (Except Error (List UInt8)) × Utf8Checked → Prop where
  | passedOn (piece carry : List UInt8) (passed : Nat) (later : List (List UInt8))
      (fewer : later.length < rest.length)
      (reading : Reading pieces (given ++ [piece]) later carry passed) :
      Polled pieces given rest (some (.ok piece), ⟨some (later.map .ok), carry, passed⟩)
  | complete (passed : Nat) (valid : Valid pieces.flatten) (all : given.flatten = pieces.flatten) :
      Polled pieces given rest (none, ⟨none, [], passed⟩)
  | stopped (carry : List UInt8) (passed length : Nat) (invalid : ¬Valid pieces.flatten)
      (longest : LongestValid pieces.flatten length) (held : carry.length ≤ 3) :
      Polled pieces given rest (some (.error (malformed length)), ⟨none, carry, passed⟩)

theorem Reading.poll {pieces given rest : List (List UInt8)} {carry : List UInt8} {passed : Nat}
    (reading : Reading pieces given rest carry passed) :
    Polled pieces given rest (pollOpen (rest.map .ok) carry passed) := by
  induction rest generalizing carry with
  | nil =>
    rw [List.map_nil, pollOpen]
    have read := reading.read
    rw [List.flatten_nil, List.append_nil] at read
    by_cases empty : carry = []
    · subst empty
      rw [List.append_nil] at read
      exact .complete passed (read ▸ reading.valid) read
    · rw [if_neg (by simpa using empty), reading.count]
      have stuck := (reading.held empty).stuck empty
      refine .stopped carry _ _ ?_ ?_ reading.held_le
      · rw [← read]
        exact not_valid_of_stuck reading.valid stuck
      · rw [← read]
        exact longest_of_stuck reading.valid stuck
  | cons chunk rest ih =>
    rw [List.map_cons, pollOpen]
    rcases reading.admit_chunk with
      ⟨offset, refused, invalid, longest⟩ | ⟨valid, carry', admitted, whole, split, held⟩
    · rw [refused]
      exact .stopped [] passed offset invalid longest (by decide)
    · rw [admitted]
      dsimp only
      have read : given.flatten ++ valid ++ carry' ++ rest.flatten = pieces.flatten := by
        rw [← reading.read, List.flatten_cons, ← List.append_assoc,
          List.append_assoc given.flatten carry, split]
        simp only [List.append_assoc]
      by_cases none : valid = []
      · subst none
        rw [if_pos List.isEmpty_nil]
        rw [List.append_nil] at read
        have next := ih ⟨read, reading.whole, reading.count, held⟩
        cases polled : pollOpen (rest.map .ok) carry' passed with
        | mk item reader =>
          rw [polled] at next
          cases next with
          | passedOn piece carry passed later fewer reading =>
            exact .passedOn piece carry passed later (Nat.lt_succ_of_lt fewer) reading
          | complete passed valid all => exact .complete passed valid all
          | stopped carry passed length invalid longest held =>
            exact .stopped carry passed length invalid longest held
      · rw [if_neg (by simpa using none)]
        refine .passedOn valid carry' _ rest (Nat.lt_succ_self _) ⟨?_, ?_, ?_, held⟩
        · rw [List.flatten_append, List.flatten_singleton]
          exact read
        · intro piece inside
          rcases List.mem_append.mp inside with before | last
          · exact reading.whole piece before
          · rw [List.mem_singleton.mp last]
            exact ⟨none, whole⟩
        · rw [List.flatten_append, List.flatten_singleton, List.length_append, reading.count]

/-- How a reading of pieces ends: all was passed on, or a beginning was and then one error told
where the whole stops being valid. -/
inductive Ends (pieces given : List (List UInt8)) : List (Except Error (List UInt8)) → Prop where
  | cleanly (valid : Valid pieces.flatten) (further : List (List UInt8))
      (whole : ∀ piece ∈ given ++ further, piece ≠ [] ∧ Valid piece)
      (all : (given ++ further).flatten = pieces.flatten) :
      Ends pieces given (further.map .ok)
  | malformed (invalid : ¬Valid pieces.flatten) (length : Nat)
      (longest : LongestValid pieces.flatten length) (further : List (List UInt8))
      (whole : ∀ piece ∈ given ++ further, piece ≠ [] ∧ Valid piece)
      (begins : (given ++ further).flatten <+: pieces.flatten.take length) :
      Ends pieces given (further.map .ok ++ [.error (malformed length)])

theorem Ends.cons {pieces given : List (List UInt8)} {piece : List UInt8}
    {items : List (Except Error (List UInt8))} (ends : Ends pieces (given ++ [piece]) items) :
    Ends pieces given (.ok piece :: items) := by
  cases ends with
  | cleanly valid further whole all =>
    rw [List.append_assoc] at whole all
    exact .cleanly valid (piece :: further) whole all
  | malformed invalid length longest further whole begins =>
    rw [List.append_assoc] at whole begins
    exact .malformed invalid length longest (piece :: further) whole begins

/-- What was passed on is a beginning of the longest valid one. -/
theorem Reading.begins {pieces given rest : List (List UInt8)} {carry : List UInt8} {passed : Nat}
    (reading : Reading pieces given rest carry passed) {length : Nat}
    (longest : LongestValid pieces.flatten length) :
    given.flatten <+: pieces.flatten.take length := by
  have front : given.flatten <+: pieces.flatten := ⟨carry ++ rest.flatten, by
    rw [← List.append_assoc, reading.read]⟩
  have same := List.prefix_iff_eq_take.mp front
  have short := longest.longest given.flatten.length front.length_le (same ▸ reading.valid)
  rw [List.prefix_take_iff]
  exact ⟨front, short⟩

/-- More polls than there are pieces left read everything, and hold back three bytes at most. -/
theorem Reading.run {pieces given rest : List (List UInt8)} {carry : List UInt8} {passed : Nat}
    (reading : Reading pieces given rest carry passed) :
    ∃ items, Ends pieces given items ∧
      (∀ polls, rest.length < polls →
        (⟨some (rest.map .ok), carry, passed⟩ : Utf8Checked).items polls = items) ∧
      ∀ polls, ((⟨some (rest.map .ok), carry, passed⟩ : Utf8Checked).after polls).carry.length ≤
        3 := by
  induction long : rest.length using Nat.strongRecOn generalizing given rest carry passed with
  | _ count ih =>
    subst long
    have polled : Polled pieces given rest
        (⟨some (rest.map .ok), carry, passed⟩ : Utf8Checked).pollNext := reading.poll
    have first : (⟨some (rest.map .ok), carry, passed⟩ : Utf8Checked).carry.length ≤ 3 :=
      reading.held_le
    generalize (⟨some (rest.map .ok), carry, passed⟩ : Utf8Checked) = reader at polled first ⊢
    -- what holds of the reader after one poll holds of this one
    have moved : ∀ items, (∀ polls, rest.length ≤ polls →
        reader.pollNext.1.toList ++ reader.pollNext.2.items polls = items) →
        (∀ polls, (reader.pollNext.2.after polls).carry.length ≤ 3) →
        (∀ polls, rest.length < polls → reader.items polls = items) ∧
          ∀ polls, (reader.after polls).carry.length ≤ 3 := by
      intro items yields held
      constructor
      · intro polls enough
        obtain ⟨fewer, rfl⟩ := Nat.exists_eq_succ_of_ne_zero (Nat.ne_zero_of_lt enough)
        exact yields fewer (Nat.le_of_lt_succ enough)
      · intro polls
        cases polls with
        | zero => exact first
        | succ polls => exact held polls
    generalize reader.pollNext = step at polled moved
    cases polled with
    | passedOn piece carry passed later fewer reading =>
      obtain ⟨items, ends, yields, held⟩ := ih later.length fewer reading rfl
      refine ⟨.ok piece :: items, ends.cons, moved _ (fun polls enough => ?_) held⟩
      rw [yields polls (by omega)]
      rfl
    | complete passed valid all =>
      have ended := @after_ended ⟨none, [], passed⟩ rfl
      refine ⟨[], .cleanly valid [] ?_ ?_, moved _ (fun polls _ => (ended polls).2) fun polls => ?_⟩
      · rw [List.append_nil]
        exact reading.whole
      · rw [List.append_nil]
        exact all
      · rw [(ended polls).1]
        exact Nat.zero_le 3
    | stopped carry passed length invalid longest held =>
      have ended := @after_ended ⟨none, carry, passed⟩ rfl
      refine ⟨[.error (malformed length)], .malformed invalid length longest [] ?_ ?_,
        moved _ (fun polls _ => ?_) fun polls => ?_⟩
      · rw [List.append_nil]
        exact reading.whole
      · rw [List.append_nil]
        exact reading.begins longest
      · dsimp only
        rw [(ended polls).2]
        rfl
      · rw [(ended polls).1]
        exact held

end Utf8Checked

/-- The `content` argument as a body with its type, where a resource is read by name and what
stands by value or by content id is a body. -/
def content (args : List (Text × ArgRef)) (sourceBody : Iri → Except Error Representation)
    (stored : List UInt8 → Except Error Body) : Except Error Representation :=
  let octets : ReprType := ⟨"application/octet-stream".toList, []⟩
  match argNamed args "content".toList with
  | some (.reference target) => sourceBody target
  | some (.inline bytes) => .ok (Range.fromBody octets (.bytes bytes))
  | some (.content digest) => (stored digest).map (Range.fromBody octets)
  | none => .error (.missingArgument "content".toList)

def utf8Labels : List Text :=
  ["utf-8".toList, "utf8".toList, "unicode-1-1-utf-8".toList, "unicode11utf8".toList,
    "unicode20utf8".toList, "x-unicode20utf8".toList]

/-- `to_ascii_lowercase`. -/
def asciiLower (text : Text) : Text := text.map fun c => if 'A' ≤ c ∧ c ≤ 'Z' then c.toLower else c

/-- The charset to decode with: the argument, else the body's own, else UTF-8; no other is. -/
def charset (args : List (Text × ArgRef)) (body : Representation) : Except Error Unit :=
  let asked : Except Error (Option Text) :=
    match argNamed args "charset".toList with
    | some (.inline bytes) =>
      match Text.ofBytes bytes with
      | some text => .ok (some text)
      | none => .error (.invalidArgument "charset".toList "not UTF-8 text".toList)
    | some _ => .error (.invalidArgument "charset".toList
        "expected an inline label such as `utf-8`".toList)
    | none => .ok none
  match asked with
  | .error failure => .error failure
  | .ok asked =>
    let own := (body.reprType.params.find? fun param => param.1 = "charset".toList).map Prod.snd
    let label := asciiLower (Text.trim ((asked.or own).getD "utf-8".toList))
    if label ∈ utf8Labels then .ok ()
    else .error (.unsupported none
      ("urn:stream:text decodes UTF-8 only; the body's charset is `".toList ++ label ++
        "`".toList))

/-- A buffer is validated whole; each reader of another body validates as it goes. -/
def decoded : Body → Except Error Body
  | .bytes data =>
    match fromUtf8 data with
    | .ok () => .ok (.bytes data)
    | .error refusal => .error (malformed refusal.validUpTo)
  | .replay object length => .ok (.replay object length)
  | .once object => .ok (.once object)

/-- The endpoint. What opens the decoded body is a reader over what opens the body. -/
def invokeBody (args : List (Text × ArgRef)) (sourceBody : Iri → Except Error Representation)
    (stored : List UInt8 → Except Error Body) : Except Error Representation := do
  let body ← content args sourceBody stored
  charset args body
  let text : ReprType := ⟨"text/plain".toList, [("charset".toList, "utf-8".toList)]⟩
  let decoded ← decoded body.body
  .ok { Range.fromBody text decoded with expiry := .never }

/-- Decoding a buffer tells the length of its longest valid beginning, or answers it. -/
theorem decoded_buffer (data : List UInt8) :
    Valid data ∧ decoded (.bytes data) = .ok (.bytes data) ∨
      ¬Valid data ∧ ∃ length, LongestValid data length ∧
        decoded (.bytes data) = .error (malformed length) := by
  obtain ⟨accepts, refuses⟩ := from_utf8_exact data
  cases outcome : fromUtf8 data with
  | ok done => exact .inl ⟨accepts.mp outcome, by rw [decoded, outcome]⟩
  | error refusal =>
    refine .inr ⟨fun valid => ?_, _, refuses refusal outcome, by rw [decoded, outcome]⟩
    rw [accepts.mpr valid] at outcome
    cases outcome

theorem LongestValid.unique {bytes : List UInt8} {length other : Nat}
    (longest : LongestValid bytes length) (longest' : LongestValid bytes other) : length = other :=
  Nat.le_antisymm (longest'.longest length longest.inside longest.valid)
    (longest.longest other longest'.inside longest'.valid)

/-- However bytes are cut, reading them chunk by chunk ends as decoding them whole does. Where
they are what some text is encoded as, exactly they are passed on and the reading ends;
otherwise a part of the longest such beginning is, and one error tells that beginning's length,
which decoding them whole tells too. Only whole characters are passed on, nothing comes after
that, and at no time are more than three bytes held back. -/
theorem incremental_is_whole (pieces : List (List UInt8)) :
    (Valid pieces.flatten ↔ ∃ text : Text, text.asBytes = pieces.flatten) ∧
    (∀ polls, ((Utf8Checked.new (pieces.map .ok)).after polls).carry.length ≤ 3) ∧
    ∃ given : List (List UInt8), (∀ piece ∈ given, piece ≠ [] ∧ Valid piece) ∧
      (Valid pieces.flatten ∧ given.flatten = pieces.flatten ∧
          (∀ polls, pieces.length < polls →
            (Utf8Checked.new (pieces.map .ok)).items polls = given.map .ok) ∧
          decoded (.bytes pieces.flatten) = .ok (.bytes pieces.flatten) ∨
        ¬Valid pieces.flatten ∧ ∃ length, LongestValid pieces.flatten length ∧
          given.flatten <+: pieces.flatten.take length ∧
          (∀ polls, pieces.length < polls → (Utf8Checked.new (pieces.map .ok)).items polls =
            given.map .ok ++ [.error (malformed length)]) ∧
          decoded (.bytes pieces.flatten) = .error (malformed length)) := by
  have start : Utf8Checked.Reading pieces [] pieces [] 0 :=
    ⟨rfl, nofun, rfl, fun some_ => absurd rfl some_⟩
  obtain ⟨items, ends, yields, held⟩ := start.run
  refine ⟨valid_iff _, held, ?_⟩
  cases ends with
  | cleanly valid further whole all =>
    refine ⟨further, whole, .inl ⟨valid, all, yields, ?_⟩⟩
    exact ((decoded_buffer pieces.flatten).resolve_right fun other => other.1 valid).2
  | malformed invalid length longest further whole begins =>
    refine ⟨further, whole, .inr ⟨invalid, length, longest, begins, yields, ?_⟩⟩
    obtain ⟨other, longest', refused⟩ :=
      ((decoded_buffer pieces.flatten).resolve_left fun other => invalid other.1).2
    rw [LongestValid.unique longest longest']
    exact refused

end StreamText

end Ikigai
