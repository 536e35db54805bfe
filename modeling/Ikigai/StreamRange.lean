import Ikigai.BudgetTree
import Ikigai.Contract

/-!
# Byte ranges

`urn:stream:range` reads the bytes of a resource from one offset up to another. A buffer is
sliced. A body that can be read again is opened at the first offset, and read only as far as
was asked, each chunk drawn from the run's byte pool before it is held. What a replay states
of its length is checked before it is opened; of one that states none, a start past the end
shows as nothing to read.
-/

namespace Ikigai

/-- A content id as it is shown. -/
def contentText (digest : List UInt8) : Text := "b3:".toList ++ digest.flatMap lowerHex

/-- `args.get`. -/
def argNamed (args : List (Text × ArgRef)) (name : Text) : Option ArgRef :=
  (args.find? fun entry => entry.1 = name).map Prod.snd

/-- The bytes of an argument that is given by value. -/
def inlineArg (args : List (Text × ArgRef)) (name : Text) : Except Error (List UInt8) :=
  match argNamed args name with
  | some (.inline bytes) => .ok bytes
  | some (.content digest) => .error (.invalidArgument name
      ("expected an inline value, got content ".toList ++ contentText digest ++
        ": read it with \x60content_body\x60".toList))
  | some (.reference _) => .error (.invalidArgument name "expected an inline value".toList)
  | none => .error (.missingArgument name)

/-- An inline argument as text. -/
def inlineStr (args : List (Text × ArgRef)) (name : Text) : Except Error Text :=
  match inlineArg args name with
  | .error failure => .error failure
  | .ok bytes =>
    match Text.ofBytes bytes with
    | some text => .ok text
    | none => .error (.invalidArgument name "not valid UTF-8".toList)

/-- `str::parse::<u64>`: decimal digits, a plus sign before them, and no overflow. -/
def parseU64 (text : Text) : Option Nat :=
  let digits := (Text.stripPrefix text ['+']).getD text
  if digits.isEmpty || !(digits.all Char.isDigit) then none
  else
    let value := digits.foldl (fun value digit => value * 10 + (digit.toNat - '0'.toNat)) 0
    if value < 2 ^ 64 then some value else none

namespace Range

/-- A non-negative integer argument. -/
def offset (args : List (Text × ArgRef)) (name : Text) : Except Error (Option Nat) :=
  match argNamed args name with
  | none => .ok none
  | some _ =>
    match inlineStr args name with
    | .error failure => .error failure
    | .ok text =>
      match parseU64 (Text.trim text) with
      | some value => .ok (some value)
      | none => .error (.invalidArgument name
          ("expected a non-negative integer, got \x60".toList ++ text ++ "\x60".toList))

def notAnIri : Error :=
  .invalidArgument "of".toList "expected the IRI of the resource to read".toList

/-- The resource a range is read from, by reference or as an inline IRI. -/
def ofTarget [IriSyntax] (args : List (Text × ArgRef)) : Except Error Iri :=
  match argNamed args "of".toList with
  | some (.reference name) => .ok name
  | some (.inline bytes) =>
    match (Text.ofBytes bytes).bind fun text => Iri.parse (Text.trim text) with
    | some name => .ok name
    | none => .error notAnIri
  | some (.content _) => .error (.invalidArgument "of".toList
      "expected the IRI of the resource to read, not content".toList)
  | none => .error (.missingArgument "of".toList)

def endsBeforeStart (start stop : Nat) : Error :=
  .invalidArgument "end".toList ("the range ends before it starts (".toList ++
    Nat.toDigits 10 start ++ "..".toList ++ Nat.toDigits 10 stop ++ ")".toList)

def unsatisfiable (target : Iri) (start length : Nat) : Error :=
  .invalidArgument "start".toList ("the range starts at ".toList ++ Nat.toDigits 10 start ++
    ", past the end of \x60".toList ++ target ++ "\x60 (".toList ++ Nat.toDigits 10 length ++
    " bytes)".toList)

def notSeekable (target : Iri) : Error :=
  .unsupported none ("\x60".toList ++ target ++
    ("\x60 answers a body that cannot be read from an offset (a one-shot stream or an " ++
      "unseekable replay); urn:stream:range does not collect it to slice it").toList)

def overRange (left : Nat) : Error :=
  .overBudget ("the range is larger than the run's byte budget (".toList ++ Nat.toDigits 10 left ++
    " byte(s) left; a \x60urn:cap:stream:memory:<bytes>\x60 grant raises it)".toList)

/-- What a reader yields, chunk by chunk. -/
abbrev Chunks := List (Except Error (List UInt8))

/-- The loop: while more is wanted, the part of the next chunk that is wanted is drawn and then
held. What was drawn is told beside the answer. -/
def readChunks (budget : Pool) (wanted : Option Nat) : Chunks → Nat → List UInt8 → PoolCells →
    PoolCells × Nat × Except Error (List UInt8)
  | [], drawn, out, cells => (cells, drawn, .ok out)
  | item :: rest, drawn, out, cells =>
    if wanted.all fun most => out.length < most then
      match item with
      | .error failure => (cells, drawn, .error failure)
      | .ok chunk =>
        let part := (wanted.map fun most => chunk.take (most - out.length)).getD chunk
        let taken := budget.tryTake cells part.length
        if taken.2 then
          readChunks budget wanted rest (drawn + part.length) (out ++ part) taken.1
        else (taken.1, drawn, .error (overRange (budget.remaining taken.1)))
    else (cells, drawn, .ok out)

/-- Read at most so many bytes; where that fails, what was drawn is given back. -/
def readRange (budget : Pool) (wanted : Option Nat) (chunks : Chunks) (cells : PoolCells) :
    PoolCells × Except Error (List UInt8) :=
  match readChunks budget wanted chunks 0 [] cells with
  | (after, _, .ok out) => (after, .ok out)
  | (after, drawn, .error failure) => (budget.giveBack after drawn, .error failure)

/-- Whether a start is past the end of a body of this length. -/
def pastEnd (start length : Nat) : Bool := length < start || (start = length && 0 < length)

/-- With no length to check up front, a start past the end shows as nothing to read where
something was asked for. -/
def answered (target : Iri) (start : Nat) (wanted hint : Option Nat) (bytes : List UInt8) :
    Except Error (List UInt8) :=
  if bytes.isEmpty && 0 < start && wanted != some 0 && hint.isNone then
    .error (unsatisfiable target start start)
  else .ok bytes

/-- The bytes from one offset to another of a body that is a buffer, or one that opens at the
first. -/
def slice (target : Iri) (start : Nat) (stop : Option Nat) (body : Body)
    (openAt : Nat → Option Chunks) (budget : Pool) (cells : PoolCells) :
    PoolCells × Except Error (List UInt8) :=
  match body with
  | .bytes data =>
    if pastEnd start data.length then (cells, .error (unsatisfiable target start data.length))
    else (cells, .ok ((data.take ((stop.map (min · data.length)).getD data.length)).drop start))
  | .replay _ hint =>
    match hint.filter (pastEnd start) with
    | some length => (cells, .error (unsatisfiable target start length))
    | none =>
      match openAt start with
      | none => (cells, .error (notSeekable target))
      | some chunks =>
        let wanted := stop.map (· - start)
        let read := readRange budget wanted chunks cells
        (read.1, read.2.bind (answered target start wanted hint))
  | .once _ => (cells, .error (notSeekable target))

/-- What an answer is until its endpoint says more of it. -/
def fromBody (reprType : ReprType) (body : Body) : Representation where
  reprType := reprType
  body := body
  expiry := .always
  threads := .empty
  validator := none
  revalidated := false

/-- The answer a range gives, which may be kept. -/
def answerOf (source : Representation) (bytes : List UInt8) : Representation :=
  { fromBody source.reprType (.bytes bytes) with expiry := .never }

/-- The endpoint, where a resource is read by name, and a body that can be read again is opened
at an offset. -/
def invokeBody [IriSyntax] (args : List (Text × ArgRef))
    (sourceBody : Iri → Except Error Representation) (openAt : Nat → Option Chunks)
    (budget : Pool) (cells : PoolCells) : PoolCells × Except Error Representation :=
  match ofTarget args with
  | .error failure => (cells, .error failure)
  | .ok target =>
    match offset args "start".toList with
    | .error failure => (cells, .error failure)
    | .ok none => (cells, .error (.missingArgument "start".toList))
    | .ok (some start) =>
      match offset args "end".toList with
      | .error failure => (cells, .error failure)
      | .ok stop =>
        match stop.filter (· < start) with
        | some before => (cells, .error (endsBeforeStart start before))
        | none =>
          match sourceBody target with
          | .error failure => (cells, .error failure)
          | .ok source =>
            let sliced := slice target start stop source.body openAt budget cells
            (sliced.1, sliced.2.map (answerOf source))

section Drawn

open PoolCells

variable {start : PoolCells} {pool : Pool} (once : pool.path.Nodup)
  (inside : ∀ cell ∈ pool.path, cell < start.length)
  (word : ∀ cell, start.getD cell 0 < 2 ^ 64)

/-- Every cell of the pool covers an amount. -/
def Covers (start : PoolCells) (pool : Pool) (amount : Nat) : Prop :=
  ∀ cell ∈ pool.path, amount ≤ start.getD cell 0

instance (start : PoolCells) (pool : Pool) (amount : Nat) : Decidable (Covers start pool amount) :=
  inferInstanceAs (Decidable (∀ cell ∈ pool.path, amount ≤ start.getD cell 0))

/-- The cells once an amount was drawn. -/
def lessDrawn (start : PoolCells) (pool : Pool) (amount : Nat) : PoolCells :=
  start.shift pool.path (· - amount)

include once inside in
/-- Having drawn nothing leaves the pool as it was. -/
theorem less_nothing : lessDrawn start pool 0 = start := by
  refine ext_getD (length_shift _ _ _) fun cell => ?_
  rw [lessDrawn, getD_shift _ _ _ _ once inside, Nat.sub_zero, ite_self]

include once inside word in
/-- Of cells that were drawn from, more is drawn where both amounts are covered. -/
theorem take_more (drawn amount : Nat) :
    pool.tryTake (lessDrawn start pool drawn) amount =
      if ∀ cell ∈ pool.path, amount ≤ start.getD cell 0 - drawn then
        (lessDrawn start pool (drawn + amount), true)
      else (lessDrawn start pool drawn, false) := by
  have less (cell : Nat) : (lessDrawn start pool drawn).getD cell 0 =
      if cell ∈ pool.path then start.getD cell 0 - drawn else start.getD cell 0 :=
    getD_shift _ _ _ _ once inside
  have inside' : ∀ cell ∈ pool.path, cell < (lessDrawn start pool drawn).length := by
    intro cell member
    rw [lessDrawn, length_shift]
    exact inside cell member
  have word' : ∀ cell, (lessDrawn start pool drawn).getD cell 0 < 2 ^ 64 := by
    intro cell
    have small := word cell
    rw [less]
    split <;> omega
  have twice : (lessDrawn start pool drawn).shift pool.path (· - amount) =
      lessDrawn start pool (drawn + amount) := by
    refine ext_getD (by simp [lessDrawn]) fun cell => ?_
    rw [getD_shift _ _ _ _ once inside', less, lessDrawn, getD_shift _ _ _ _ once inside]
    by_cases member : cell ∈ pool.path
    · rw [if_pos member, if_pos member, if_pos member, Nat.sub_sub]
    · rw [if_neg member, if_neg member, if_neg member]
  rw [Pool.try_take_eq _ pool amount once inside' word', twice]
  refine if_congr (forall_congr' fun cell => ?_) rfl rfl
  refine forall_congr' fun member => ?_
  rw [less, if_pos member]

include once inside word in
/-- What was drawn and is given back leaves the pool as it was. -/
theorem give_back_drawn (drawn : Nat) (covered : Covers start pool drawn) :
    pool.giveBack (lessDrawn start pool drawn) drawn = start :=
  shift_back start pool.path drawn once inside covered word

/-- What a reading leaves: what it told it drew is drawn, and that is what it holds. -/
structure Tally (start : PoolCells) (pool : Pool)
    (result : PoolCells × Nat × Except Error (List UInt8)) : Prop where
  cells : result.1 = lessDrawn start pool result.2.1
  covered : Covers start pool result.2.1
  held : ∀ out, result.2.2 = .ok out → result.2.1 = out.length

include once inside word in
/-- Reading a stream draws one byte for each that is kept, and no more. -/
theorem read_tally (wanted : Option Nat) (chunks : Chunks) (out : List UInt8)
    (covered : Covers start pool out.length) :
    Tally start pool
      (readChunks pool wanted chunks out.length out (lessDrawn start pool out.length)) := by
  induction chunks generalizing out with
  | nil => exact ⟨rfl, covered, fun _ same => by cases same; rfl⟩
  | cons item rest ih =>
    by_cases more : wanted.all (fun most => out.length < most) = true
    · cases item with
      | error failure =>
        rw [readChunks, if_pos more]
        exact ⟨rfl, covered, nofun⟩
      | ok chunk =>
        rw [readChunks, if_pos more]
        dsimp only
        rw [take_more once inside word]
        generalize (wanted.map fun most => chunk.take (most - out.length)).getD chunk = part
        by_cases enough : ∀ cell ∈ pool.path, part.length ≤ start.getD cell 0 - out.length
        · rw [if_pos enough, if_pos rfl, ← List.length_append]
          apply ih
          intro cell member
          have first := covered cell member
          have further := enough cell member
          rw [List.length_append]
          omega
        · rw [if_neg enough, if_neg Bool.false_ne_true]
          exact ⟨rfl, covered, nofun⟩
    · cases item with
      | error failure =>
        rw [readChunks, if_neg more]
        exact ⟨rfl, covered, fun _ same => by cases same; rfl⟩
      | ok chunk =>
        rw [readChunks, if_neg more]
        exact ⟨rfl, covered, fun _ same => by cases same; rfl⟩

include once inside word in
/-- What an answer of a reading holds was drawn for it, and an error leaves nothing drawn. -/
theorem read_range_tally (wanted : Option Nat) (chunks : Chunks) :
    (∀ out, (readRange pool wanted chunks start).2 = .ok out →
      (readRange pool wanted chunks start).1 = lessDrawn start pool out.length) ∧
    ∀ failure, (readRange pool wanted chunks start).2 = .error failure →
      (readRange pool wanted chunks start).1 = start := by
  have tally := read_tally once inside word wanted chunks [] fun _ _ => Nat.zero_le _
  rw [List.length_nil, less_nothing once inside] at tally
  unfold readRange
  split
  · rename_i after drawn out same
    rw [same] at tally
    refine ⟨?_, nofun⟩
    rintro _ ⟨⟩
    rw [← tally.held out rfl]
    exact tally.cells
  · rename_i after drawn failure same
    rw [same] at tally
    refine ⟨nofun, fun _ _ => ?_⟩
    have cells : after = lessDrawn start pool drawn := tally.cells
    rw [cells]
    exact give_back_drawn once inside word drawn tally.covered

/-- As much of some bytes as is still wanted. -/
def wantedOf (wanted : Option Nat) (held : Nat) (bytes : List UInt8) : List UInt8 :=
  (wanted.map fun most => bytes.take (most - held)).getD bytes

/-- Nothing more is wanted of a range that is full. -/
theorem wanted_of_none {wanted : Option Nat} {held : Nat} (bytes : List UInt8)
    (enough : wanted.all (fun most => held < most) = false) : wantedOf wanted held bytes = [] := by
  cases wanted with
  | none => cases enough
  | some most =>
    have reached : most ≤ held := by simpa using enough
    rw [wantedOf, Option.map_some, Option.getD_some, Nat.sub_eq_zero_of_le reached, List.take_zero]

/-- What is wanted of two chunks is wanted of the first and then of the second. -/
theorem wanted_of_append (wanted : Option Nat) (held : Nat) (chunk rest : List UInt8) :
    wantedOf wanted held (chunk ++ rest) = wantedOf wanted held chunk ++
      wantedOf wanted (held + (wantedOf wanted held chunk).length) rest := by
  cases wanted with
  | none => rfl
  | some most =>
    simp only [wantedOf, Option.map_some, Option.getD_some, List.take_append, List.length_take]
    congr 2
    omega

include once inside word in
/-- However the bytes are cut: all that is wanted of them is read where the pool covers it, and
otherwise the pool is told of. -/
theorem read_pieces (wanted : Option Nat) (pieces : List (List UInt8)) (out : List UInt8)
    (covered : Covers start pool out.length) :
    (Covers start pool (out.length + (wantedOf wanted out.length pieces.flatten).length) →
      (readChunks pool wanted (pieces.map .ok) out.length out
        (lessDrawn start pool out.length)).2.2 =
          .ok (out ++ wantedOf wanted out.length pieces.flatten)) ∧
    (¬Covers start pool (out.length + (wantedOf wanted out.length pieces.flatten).length) →
      ∃ detail, (readChunks pool wanted (pieces.map .ok) out.length out
        (lessDrawn start pool out.length)).2.2 = .error (.overBudget detail)) := by
  induction pieces generalizing out with
  | nil =>
    have nothing : wantedOf wanted out.length ([] : List (List UInt8)).flatten = [] := by
      cases wanted <;> simp [wantedOf]
    rw [nothing, List.length_nil, Nat.add_zero, List.append_nil]
    exact ⟨fun _ => rfl, fun uncovered => absurd covered uncovered⟩
  | cons chunk pieces ih =>
    rw [List.map_cons, readChunks]
    by_cases more : wanted.all (fun most => out.length < most) = true
    · rw [if_pos more]
      dsimp only
      rw [take_more once inside word]
      have part : (wanted.map fun most => chunk.take (most - out.length)).getD chunk =
          wantedOf wanted out.length chunk := rfl
      have all : out.length +
          (wantedOf wanted out.length (chunk :: pieces).flatten).length =
          (out ++ wantedOf wanted out.length chunk).length +
            (wantedOf wanted (out ++ wantedOf wanted out.length chunk).length
              pieces.flatten).length := by
        rw [List.flatten_cons, wanted_of_append]
        simp only [List.length_append]
        omega
      rw [part, all]
      by_cases enough : ∀ cell ∈ pool.path,
          (wantedOf wanted out.length chunk).length ≤ start.getD cell 0 - out.length
      · rw [if_pos enough, if_pos rfl]
        have covered' : Covers start pool (out ++ wantedOf wanted out.length chunk).length := by
          intro cell member
          have first := covered cell member
          have further := enough cell member
          rw [List.length_append]
          omega
        have rest := ih _ covered'
        rw [List.length_append] at rest ⊢
        rw [List.flatten_cons, wanted_of_append, ← List.append_assoc]
        exact rest
      · rw [if_neg enough, if_neg Bool.false_ne_true]
        refine ⟨fun enough' => absurd ?_ enough, fun _ => ⟨_, rfl⟩⟩
        intro cell member
        have total := enough' cell member
        rw [List.length_append] at total
        omega
    · rw [Bool.not_eq_true] at more
      rw [if_neg (by rw [more]; decide), wanted_of_none _ more, List.length_nil, Nat.add_zero,
        List.append_nil]
      exact ⟨fun _ => rfl, fun uncovered => absurd covered uncovered⟩

include once inside word in
/-- A range read from pieces is the wanted part of what they hold together. -/
theorem read_range_pieces (wanted : Option Nat) (pieces : List (List UInt8)) :
    (Covers start pool (wantedOf wanted 0 pieces.flatten).length →
      readRange pool wanted (pieces.map .ok) start =
        (lessDrawn start pool (wantedOf wanted 0 pieces.flatten).length,
          .ok (wantedOf wanted 0 pieces.flatten))) ∧
    (¬Covers start pool (wantedOf wanted 0 pieces.flatten).length →
      ∃ detail, readRange pool wanted (pieces.map .ok) start =
        (start, .error (.overBudget detail))) := by
  have read := read_pieces once inside word wanted pieces [] fun _ _ => Nat.zero_le _
  have tally := read_range_tally once inside word wanted (pieces.map .ok)
  rw [List.length_nil, less_nothing once inside, Nat.zero_add, List.nil_append] at read
  have second : ∀ out, (readChunks pool wanted (pieces.map .ok) 0 [] start).2.2 = .ok out →
      (readRange pool wanted (pieces.map .ok) start).2 = .ok out := by
    intro out ok
    unfold readRange
    split
    · rename_i same
      rw [same] at ok
      exact ok
    · rename_i same
      rw [same] at ok
      cases ok
  have second' : ∀ failure,
      (readChunks pool wanted (pieces.map .ok) 0 [] start).2.2 = .error failure →
        (readRange pool wanted (pieces.map .ok) start).2 = .error failure := by
    intro failure refused
    unfold readRange
    split
    · rename_i same
      rw [same] at refused
      cases refused
    · rename_i same
      rw [same] at refused
      exact refused
  constructor
  · intro enough
    have out := second _ (read.1 enough)
    exact Prod.ext (tally.1 _ out) out
  · intro short
    obtain ⟨detail, refused⟩ := read.2 short
    have failed := second' _ refused
    exact ⟨detail, Prod.ext (tally.2 _ failed) failed⟩

end Drawn

/-- Whether a start lies inside a body: before its end, or at the start of an empty one. -/
def Inside (bytes : List UInt8) (start : Nat) : Prop :=
  start < bytes.length ∨ bytes = [] ∧ start = 0

/-- The bytes from a start to the least of a stop and the length. -/
def window (bytes : List UInt8) (start : Nat) (stop : Option Nat) : List UInt8 :=
  (bytes.take ((stop.map (min · bytes.length)).getD bytes.length)).drop start

/-- A body of these bytes that can be read again: what it states of its length is so, and it
opens at any offset, with what is left cut in some way. -/
inductive Replays (bytes : List UInt8) : Body → (Nat → Option Chunks) → Prop where
  | seekable (object : Nat) (hint : Option Nat) (openAt : Nat → Option Chunks)
      (stated : ∀ length, hint = some length → length = bytes.length)
      (opens : ∀ offset, ∃ pieces : List (List UInt8), openAt offset = some (pieces.map .ok) ∧
        pieces.flatten = bytes.drop offset) :
      Replays bytes (.replay object hint) openAt

/-- A range begins past the end exactly when its first byte is not inside. -/
theorem past_end_iff (bytes : List UInt8) (start : Nat) :
    pastEnd start bytes.length = true ↔ ¬Inside bytes start := by
  rw [pastEnd, Inside, ← List.length_eq_zero_iff]
  simp only [Bool.or_eq_true, Bool.and_eq_true, decide_eq_true_eq]
  omega

/-- What is read of a window is the window: the reader is opened at its start. -/
theorem wanted_window (bytes : List UInt8) (start : Nat) (stop : Option Nat)
    (forward : ∀ before, stop = some before → start ≤ before) :
    wantedOf (stop.map (· - start)) 0 (bytes.drop start) = window bytes start stop := by
  cases stop with
  | none => simp [wantedOf, window]
  | some stop =>
    have ordered := forward stop rfl
    simp only [wantedOf, window, Option.map_some, Option.getD_some, Nat.sub_zero]
    rw [List.take_drop, Nat.add_sub_cancel' ordered, List.take_eq_take_min]

/-- The window of a range that is outside is empty. -/
theorem window_outside (bytes : List UInt8) (start : Nat) (stop : Option Nat)
    (outside : ¬Inside bytes start) : window bytes start stop = [] := by
  rw [window, List.drop_eq_nil_iff]
  have long : bytes.length ≤ start := by
    rw [Inside] at outside
    omega
  exact (List.length_take_le' _ _).trans long

/-- Something is read of a start inside, unless nothing was asked for or there is nothing. -/
theorem window_inside (bytes : List UInt8) (start : Nat) (stop : Option Nat)
    (inside : Inside bytes start) (later : 0 < start)
    (forward : ∀ before, stop = some before → start ≤ before) (asked : stop ≠ some start) :
    window bytes start stop ≠ [] := by
  have before : start < bytes.length := inside.resolve_right fun empty => by omega
  have far : start < (stop.map (min · bytes.length)).getD bytes.length := by
    cases stop with
    | none => exact before
    | some stop =>
      have apart : stop ≠ start := fun same => asked (congrArg some same)
      have ordered := forward stop rfl
      simp only [Option.map_some, Option.getD_some]
      omega
  rw [window, Ne, List.drop_eq_nil_iff, List.length_take]
  omega

section Answers

variable {cells : PoolCells} {pool : Pool} (once : pool.path.Nodup)
  (inside : ∀ cell ∈ pool.path, cell < cells.length)
  (word : ∀ cell, cells.getD cell 0 < 2 ^ 64)

/-- What a slice of a buffer, or of a replay, of these bytes is. -/
structure Sliced (bytes : List UInt8) (start : Nat) (stop : Option Nat) (body : Body)
    (cells : PoolCells) (pool : Pool) (result : Except Error (List UInt8)) : Prop where
  outside : ¬Inside bytes start → body.lenHint.isSome = true ∨ stop ≠ some start →
    ∃ detail, result = .error (.invalidArgument "start".toList detail)
  nothing : ¬Inside bytes start → body.lenHint = none → stop = some start → result = .ok []
  within : Inside bytes start → body.asBytes.isSome = true ∨
    Covers cells pool (window bytes start stop).length → result = .ok (window bytes start stop)
  short : Inside bytes start → body.asBytes = none →
    ¬Covers cells pool (window bytes start stop).length →
      ∃ detail, result = .error (.overBudget detail)

/-- Of a buffer the slice is the window of its bytes, and nothing is drawn. -/
theorem slice_buffer (target : Iri) (start : Nat) (stop : Option Nat) (bytes : List UInt8)
    (openAt : Nat → Option Chunks) :
    Sliced bytes start stop (.bytes bytes) cells pool
      (slice target start stop (.bytes bytes) openAt pool cells).2 := by
  rw [slice]
  by_cases outside : pastEnd start bytes.length = true
  · rw [if_pos outside]
    have out := (past_end_iff bytes start).mp outside
    exact ⟨fun _ _ => ⟨_, rfl⟩, fun _ unknown => (by cases unknown), fun within => absurd within out,
      fun within => absurd within out⟩
  · rw [if_neg outside]
    have within := not_not.mp (mt (past_end_iff bytes start).mpr outside)
    exact ⟨fun out => absurd within out, fun out => absurd within out, fun _ _ => rfl,
      fun _ buffer => (by cases buffer)⟩

include once inside word in
/-- Of a body that can be opened again the slice is the same window, read from where it begins. -/
theorem slice_replay (target : Iri) (start : Nat) (stop : Option Nat) (bytes : List UInt8)
    (body : Body) (openAt : Nat → Option Chunks) (replays : Replays bytes body openAt)
    (forward : ∀ before, stop = some before → start ≤ before) :
    Sliced bytes start stop body cells pool
      (slice target start stop body openAt pool cells).2 := by
  obtain ⟨object, hint, openAt, stated, opens⟩ := replays
  obtain ⟨pieces, opened, left⟩ := opens start
  have read := read_range_pieces once inside word (stop.map (· - start)) pieces
  rw [left, wanted_window bytes start stop forward] at read
  have asked : (stop.map (· - start) != some 0) = true ↔ stop ≠ some start := by
    cases stop with
    | none => simp
    | some stop =>
      have ordered := forward stop rfl
      simp only [Option.map_some, bne_iff_ne, ne_eq, Option.some.injEq]
      omega
  rw [slice]
  cases known : hint.filter (pastEnd start) with
  | some length =>
    obtain ⟨held, past⟩ := Option.filter_eq_some_iff.mp known
    rw [stated length held] at past
    have out := (past_end_iff bytes start).mp past
    refine ⟨fun _ _ => ⟨_, rfl⟩, fun _ unknown => ?_, fun within => absurd within out,
      fun within => absurd within out⟩
    rw [Body.lenHint, held] at unknown
    cases unknown
  | none =>
    dsimp only
    rw [opened]
    dsimp only
    have unhinted : ¬Inside bytes start → hint = none := by
      intro out
      cases held : hint with
      | none => rfl
      | some length =>
        rw [held, Option.filter_some, stated length held, (past_end_iff bytes start).mpr out] at known
        cases known
    by_cases within : Inside bytes start
    · refine ⟨fun out => absurd within out, fun out => absurd within out, fun _ enough => ?_,
        fun _ _ uncovered => ?_⟩
      · rw [read.1 (enough.resolve_left (by simp [Body.asBytes]))]
        refine if_neg fun refused => ?_
        rw [Bool.and_eq_true, Bool.and_eq_true, Bool.and_eq_true, asked, List.isEmpty_iff,
          decide_eq_true_eq] at refused
        exact window_inside bytes start stop within refused.1.1.2 forward refused.1.2
          refused.1.1.1
      · obtain ⟨detail, refused⟩ := read.2 uncovered
        exact ⟨detail, by rw [refused]; rfl⟩
    · have later : 0 < start := by
        rw [Inside] at within
        rcases Nat.eq_zero_or_pos start with none | later
        · refine absurd (Or.inr ⟨?_, none⟩) within
          rw [← List.length_eq_zero_iff]
          omega
        · exact later
      have outcome : (readRange pool (stop.map (· - start)) (pieces.map .ok) cells).2 = .ok [] := by
        rw [window_outside bytes start stop within] at read
        rw [read.1 fun _ _ => Nat.zero_le _]
      rw [outcome]
      refine ⟨fun _ something => ?_, fun _ _ nothing => ?_, fun within' => absurd within' within,
        fun within' => absurd within' within⟩
      · have some_ := something.resolve_left (by rw [Body.lenHint, unhinted within]; decide)
        refine ⟨_, if_pos ?_⟩
        rw [unhinted within, asked.mpr some_, decide_eq_true later]
        rfl
      · refine if_neg fun refused => ?_
        rw [Bool.and_eq_true, Bool.and_eq_true, asked] at refused
        exact refused.1.2 nothing

include once inside word in
/-- A slice of a buffer draws nothing; of a replay it has drawn what it holds; and an error leaves
the pool as it was. -/
theorem slice_charged (target : Iri) (start : Nat) (stop : Option Nat) (body : Body)
    (openAt : Nat → Option Chunks) :
    (∀ data, (slice target start stop body openAt pool cells).2 = .ok data →
      (slice target start stop body openAt pool cells).1 =
        if body.asBytes.isSome then cells else lessDrawn cells pool data.length) ∧
    ∀ failure, (slice target start stop body openAt pool cells).2 = .error failure →
      (slice target start stop body openAt pool cells).1 = cells := by
  cases body with
  | bytes data =>
    rw [slice]
    split
    · exact ⟨nofun, fun _ _ => rfl⟩
    · exact ⟨fun _ _ => rfl, nofun⟩
  | once object => exact ⟨nofun, fun _ _ => rfl⟩
  | replay object hint =>
    rw [slice]
    cases hint.filter (pastEnd start) with
    | some length => exact ⟨nofun, fun _ _ => rfl⟩
    | none =>
      cases openAt start with
      | none => exact ⟨nofun, fun _ _ => rfl⟩
      | some chunks =>
        dsimp only
        have tally := read_range_tally once inside word (stop.map (· - start)) chunks
        cases outcome : (readRange pool (stop.map (· - start)) chunks cells).2 with
        | error failure => exact ⟨nofun, fun _ _ => tally.2 failure outcome⟩
        | ok out =>
          rw [Except.bind, answered]
          split
          · rename_i refused
            rw [Bool.and_eq_true, Bool.and_eq_true, Bool.and_eq_true, List.isEmpty_iff] at refused
            refine ⟨nofun, fun _ _ => ?_⟩
            rw [tally.1 out outcome, refused.1.1.1, List.length_nil, less_nothing once inside]
          · refine ⟨?_, nofun⟩
            rintro _ ⟨⟩
            exact tally.1 out outcome

end Answers

/-- A request is refused before anything is read, or its resource is sliced. -/
theorem invoke_cases [IriSyntax] (args : List (Text × ArgRef))
    (sourceBody : Iri → Except Error Representation) (openAt : Nat → Option Chunks)
    (budget : Pool) (cells : PoolCells) :
    (∃ failure, invokeBody args sourceBody openAt budget cells = (cells, .error failure)) ∨
    ∃ target start stop source, ofTarget args = .ok target ∧
      offset args "start".toList = .ok (some start) ∧ offset args "end".toList = .ok stop ∧
      sourceBody target = .ok source ∧
      invokeBody args sourceBody openAt budget cells =
        ((slice target start stop source.body openAt budget cells).1,
          (slice target start stop source.body openAt budget cells).2.map (answerOf source)) := by
  rw [invokeBody]
  cases named : ofTarget args with
  | error failure => exact .inl ⟨failure, rfl⟩
  | ok target =>
    cases first : offset args "start".toList with
    | error failure => exact .inl ⟨failure, rfl⟩
    | ok start =>
      cases start with
      | none => exact .inl ⟨_, rfl⟩
      | some start =>
        cases last : offset args "end".toList with
        | error failure => exact .inl ⟨failure, rfl⟩
        | ok stop =>
          dsimp only
          cases stop.filter (· < start) with
          | some before => exact .inl ⟨_, rfl⟩
          | none =>
            cases read : sourceBody target with
            | error failure => exact .inl ⟨failure, by simp⟩
            | ok source =>
              exact .inr ⟨target, start, stop, source, rfl, rfl, rfl, read, by simp⟩

/-- In every reached tree of budgets: an answer that was read from a stream has drawn exactly the
bytes it holds, one that was sliced nothing, and an error leaves every pool as it was. And a
range of these bytes, of a buffer or of a replay of them: it is refused where it ends before it
starts; where it starts inside, it is the window, but for a replay whose window the pool does
not cover; where it starts outside, it is refused, but for a replay that states no length and is
asked for nothing. -/
theorem range_of_any_shape [IriSyntax] (steps : List BudgetStep) (handle : Handle)
    (held : handle ∈ (BudgetTree.after steps).handles) (args : List (Text × ArgRef))
    (sourceBody : Iri → Except Error Representation) (openAt : Nat → Option Chunks) :
    let cells := (BudgetTree.after steps).cells
    let result := invokeBody args sourceBody openAt handle.pool cells
    (∀ answer, result.2 = .ok answer → ∃ target source data, ofTarget args = .ok target ∧
      sourceBody target = .ok source ∧ answer = answerOf source data ∧ result.1 =
        if source.body.asBytes.isSome then cells else lessDrawn cells handle.pool data.length) ∧
    (∀ failure, result.2 = .error failure → result.1 = cells) ∧
    ∀ target start stop source bytes, ofTarget args = .ok target →
      offset args "start".toList = .ok (some start) → offset args "end".toList = .ok stop →
      sourceBody target = .ok source →
      source.body = .bytes bytes ∨ Replays bytes source.body openAt →
      ((∃ before, stop = some before ∧ before < start) →
        ∃ detail, result.2 = .error (.invalidArgument "end".toList detail)) ∧
      ((∀ before, stop = some before → start ≤ before) →
        ∃ sliced, result.2 = sliced.map (answerOf source) ∧
          Sliced bytes start stop source.body cells handle.pool sliced) := by
  intro cells result
  have formed := BudgetTree.formed_after steps
  have sound := formed.handles handle held
  have charged := fun target start stop body => slice_charged sound.once sound.inside
    formed.cell_word target start stop body openAt
  refine ⟨fun answer answered => ?_, fun failure failed => ?_, ?_⟩
  · rcases invoke_cases args sourceBody openAt handle.pool cells with
      ⟨_, refused⟩ | ⟨target, start, stop, source, named, _, _, read, answer_⟩
    · rw [show result.2 = _ from congrArg Prod.snd refused] at answered
      cases answered
    · rw [show result.2 = _ from congrArg Prod.snd answer_] at answered
      rw [show result.1 = _ from congrArg Prod.fst answer_]
      cases outcome : (slice target start stop source.body openAt handle.pool cells).2 with
      | error failure =>
        rw [outcome] at answered
        cases answered
      | ok data =>
        rw [outcome] at answered
        cases answered
        exact ⟨target, source, data, named, read, rfl, (charged target start stop _).1 data outcome⟩
  · rcases invoke_cases args sourceBody openAt handle.pool cells with
      ⟨_, refused⟩ | ⟨target, start, stop, source, named, _, _, read, answer_⟩
    · exact congrArg Prod.fst refused
    · rw [show result.2 = _ from congrArg Prod.snd answer_] at failed
      rw [show result.1 = _ from congrArg Prod.fst answer_]
      cases outcome : (slice target start stop source.body openAt handle.pool cells).2 with
      | error failure' => exact (charged target start stop _).2 failure' outcome
      | ok data =>
        rw [outcome] at failed
        cases failed
  · intro target start stop source bytes named first last read shape
    refine ⟨?_, fun forward => ?_⟩
    · rintro ⟨before, rfl, backwards⟩
      obtain ⟨detail, told⟩ : ∃ detail, endsBeforeStart start before =
        .invalidArgument "end".toList detail := ⟨_, rfl⟩
      refine ⟨detail, ?_⟩
      simp only [result, invokeBody, named, first, last, Option.filter_some, backwards,
        decide_true, if_true, told]
    · have unrefused : stop.filter (· < start) = none := by
        rw [Option.filter_eq_none_iff]
        intro before same
        simpa using forward before same
      refine ⟨(slice target start stop source.body openAt handle.pool cells).2, ?_, ?_⟩
      · simp only [result, invokeBody, named, first, last, unrefused, read]
      · rcases shape with buffer | replays
        · rw [buffer]
          exact slice_buffer target start stop bytes openAt
        · exact slice_replay sound.once sound.inside formed.cell_word target start stop bytes
            source.body openAt replays forward

namespace ShapeExample

local instance nameIri : IriSyntax := ⟨fun _ => true, fun _ => []⟩

def asked (start stop : Text) : List (Text × ArgRef) :=
  [("end".toList, .inline stop.asBytes), ("of".toList, .reference "urn:doc".toList),
    ("start".toList, .inline start.asBytes)]

def doc (body : Body) (_ : Iri) : Except Error Representation :=
  .ok (fromBody ⟨"text/plain".toList, []⟩ body)

/-- A replay of three bytes, in two pieces or what is left of them. -/
def cut (offset : Nat) : Option Chunks := some [.ok ([1, 2].drop offset), .ok ([3].drop (offset - 2))]

/-- The example's body opens at any of its bytes. -/
theorem cut_replays : Replays [1, 2, 3] (.replay 0 none) cut := by
  apply Replays.seekable 0 none cut nofun
  intro offset
  refine ⟨[[1, 2].drop offset, [3].drop (offset - 2)], rfl, ?_⟩
  rw [List.flatten_cons, List.flatten_singleton]
  exact List.drop_append.symm

/-- Two of three bytes, cut in two: they are drawn from the pool. -/
theorem two_bytes_drawn :
    (invokeBody (asked "1".toList "9".toList) (doc (.replay 0 none)) cut ⟨[0]⟩ [10]).1 = [8] := by
  obtain ⟨charged, -, law⟩ := range_of_any_shape [.mint 10] ⟨⟨[0]⟩, []⟩ (by decide)
    (asked "1".toList "9".toList) (doc (.replay 0 none)) cut
  obtain ⟨sliced, answer, law⟩ := (law "urn:doc".toList 1 (some 9) _ [1, 2, 3] (by decide)
    (by decide) (by decide) rfl (.inr cut_replays)).2 (by decide)
  rw [law.within (.inl (by decide)) (.inr (by decide))] at answer
  obtain ⟨_, source, data, _, read, same, drawn⟩ := charged _ answer
  cases read
  cases congrArg Representation.body same
  exact drawn

/-- Of three bytes a pool of two covers a buffer's range and not a replay's; and of a replay that
states no length the empty range past its end is answered. -/
theorem shapes_differ :
    (invokeBody (asked "0".toList "3".toList) (doc (.bytes [1, 2, 3])) cut ⟨[0]⟩ [2]).2 ≠
        (invokeBody (asked "0".toList "3".toList) (doc (.replay 0 none)) cut ⟨[0]⟩ [2]).2 ∧
      (invokeBody (asked "5".toList "5".toList) (doc (.bytes [1, 2, 3])) cut ⟨[0]⟩ [9]).2 ≠
        (invokeBody (asked "5".toList "5".toList) (doc (.replay 0 none)) cut ⟨[0]⟩ [9]).2 := by
  decide

end ShapeExample

end Range

end Ikigai
