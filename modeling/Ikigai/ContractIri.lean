import Ikigai.Capability
import Ikigai.MintedIris

/-!
# Reading minted IRIs back

A match IRI is read from the left, a contract IRI from the right, because an id may hold
colons of its own. Either is read in any spelling that decodes, and written back in one.
-/

namespace Ikigai

namespace Text

/-- Cut at the first place a separator stands. -/
def cutText (separator : Text) : Text → Option (Text × Text)
  | [] => if separator.isEmpty then some ([], []) else none
  | c :: rest =>
    if startsWith (c :: rest) separator then some ([], (c :: rest).drop separator.length)
    else (cutText separator rest).map fun cut => (c :: cut.1, cut.2)

/-- `str::rsplit_once`: cut at the last place a separator stands. -/
def rsplitOnce (text separator : Text) : Option (Text × Text) :=
  (cutText separator.reverse text.reverse).map fun cut => (cut.2.reverse, cut.1.reverse)

/-- The first place is the one there is when the separator's head is nowhere ahead of it. -/
theorem cut_text_append (c : Char) (separator front back : Text) (absent : c ∉ front) :
    cutText (c :: separator) (front ++ (c :: separator ++ back)) = some (front, back) := by
  induction front with
  | nil =>
    have opens : startsWith (c :: separator ++ back) (c :: separator) = true :=
      (starts_with_iff _ _).mpr (List.prefix_append _ _)
    have cut : (c :: separator ++ back).drop (c :: separator).length = back := List.drop_left
    rw [List.cons_append] at opens cut
    rw [List.nil_append, List.cons_append, cutText, if_pos opens, cut]
  | cons other front ih =>
    have apart : c ≠ other := fun same => absent (same ▸ List.mem_cons_self)
    have shut : startsWith (other :: (front ++ (c :: separator ++ back))) (c :: separator) =
        false := by
      simp [startsWith, List.isPrefixOf, apart]
    rw [List.cons_append, cutText, shut, ih fun member => absent (List.mem_cons_of_mem other member)]
    rfl

/-- Cut from the right at a separator whose last character is nowhere behind it. -/
theorem rsplit_once_append (separator front back : Text) (c : Char) (absent : c ∉ back) :
    rsplitOnce (front ++ (separator ++ [c]) ++ back) (separator ++ [c]) = some (front, back) := by
  have turned : (front ++ (separator ++ [c]) ++ back).reverse =
      back.reverse ++ (c :: separator.reverse ++ front.reverse) := by
    simp only [List.reverse_append, List.reverse_cons, List.nil_append, List.cons_append,
      List.append_assoc]
  have whole : (separator ++ [c]).reverse = c :: separator.reverse := by
    rw [List.reverse_append, List.reverse_singleton, List.singleton_append]
  rw [rsplitOnce, turned, whole, cut_text_append c _ _ _ (by simpa using absent), Option.map_some,
    List.reverse_reverse, List.reverse_reverse]

end Text

def parseVerbSegment (name : Text) : Option Verb :=
  [Verb.source, .sink, .exists, .delete, .«meta»].find? fun verb => verbSegment verb = name

/-- Pairs of hex digits as bytes. -/
def decodeHex : List UInt8 → Option (List UInt8)
  | [] => some []
  | [_] => none
  | first :: second :: rest =>
    match hexValue first, hexValue second with
    | some high, some low => (decodeHex rest).map (UInt8.ofNat (16 * high + low) :: ·)
    | _, _ => none

/-- `ContentId::parse`. -/
def ContractDigest.parse (text : Text) : Option ContractDigest :=
  match text.stripPrefix "b3:".toList with
  | none => none
  | some hex =>
    match decodeHex hex.asBytes with
    | none => none
    | some bytes =>
      if sized : bytes.length = 32 then some ⟨⟨bytes.toArray, by simpa using sized⟩⟩ else none

/-- Read a match IRI back to its verb and pattern. -/
def parseMatchIri (iri : Text) : Option (Verb × Text) :=
  match iri.stripPrefix matchPrefix with
  | none => none
  | some rest =>
    match rest.splitOnce ':' with
    | (_, none) => none
    | (verb, some pattern) =>
      match parseVerbSegment verb, decodeSegment pattern with
      | some verb, some pattern => some (verb, pattern)
      | _, _ => none

/-- Read a contract IRI back to its id, verb and digest. -/
def parseContractIri (iri : Text) : Option (Text × Verb × ContractDigest) :=
  match iri.stripPrefix contractPrefix with
  | none => none
  | some rest =>
    match rest.rsplitOnce ":b3:".toList with
    | none => none
    | some (head, hex) =>
      match ContractDigest.parse ("b3:".toList ++ hex), head.rsplitOnce ":".toList with
      | some digest, some (id, verb) =>
        match decodeSegment id, parseVerbSegment verb with
        | some id, some verb => some (id, verb, digest)
        | _, _ => none
      | _, _ => none

/-- The one spelling of a match IRI. -/
def canonicalMatchIri (iri : Text) : Option Text :=
  (parseMatchIri iri).map fun parts => matchIri parts.1 parts.2

/-- The one spelling of a contract IRI. -/
def canonicalContractIri (iri : Text) : Option Text :=
  (parseContractIri iri).map fun parts => contractIriOf parts.1 parts.2.1 parts.2.2

/-- A verb is read back from its segment. -/
theorem parse_verb_segment (verb : Verb) : parseVerbSegment (verbSegment verb) = some verb := by
  cases verb <;> decide

/-- No verb's segment holds a colon. -/
theorem verb_segment_plain (verb : Verb) : ':' ∉ verbSegment verb := by
  cases verb <;> decide

/-- What stands behind a prefix is left when it is stripped. -/
theorem strip_prefix_append (start rest : Text) : (start ++ rest).stripPrefix start = some rest :=
  (Text.strip_prefix_eq_some _ _ _).mpr rfl

/-- A match IRI is read back. -/
theorem parse_match_iri (verb : Verb) (pattern : Text) :
    parseMatchIri (matchIri verb pattern) = some (verb, pattern) := by
  have shape : matchIri verb pattern =
      matchPrefix ++ (verbSegment verb ++ ':' :: encodeName pattern) := by
    rw [matchIri, List.append_assoc, List.append_assoc]
    rfl
  rw [parseMatchIri, shape, strip_prefix_append]
  simp only [Text.split_once_append _ _ ':' (verb_segment_plain verb), parse_verb_segment,
    decode_encode_name]

/-- A hexadecimal digit in small letters is read back from its one byte. -/
theorem lower_hex_value (digit : Nat) (small : digit < 16) :
    ∃ byte, String.utf8EncodeChar (lowerHexDigit digit) = [byte] ∧
      hexValue byte = some digit := by
  interval_cases digit <;> exact ⟨_, rfl, rfl⟩

/-- A digest's bytes are read back from their hex digits. -/
theorem decode_lower_hex (bytes : List UInt8) :
    decodeHex (Text.asBytes (bytes.flatMap lowerHex)) = some bytes := by
  induction bytes with
  | nil => rfl
  | cons byte bytes ih =>
    have small : byte.toNat < 256 := byte.toNat_lt
    obtain ⟨first, written, high⟩ := lower_hex_value (byte.toNat / 16) (by omega)
    obtain ⟨second, written', low⟩ := lower_hex_value (byte.toNat % 16) (by omega)
    have whole : UInt8.ofNat (16 * (byte.toNat / 16) + byte.toNat % 16) = byte := by
      rw [Nat.div_add_mod, UInt8.ofNat_toNat]
    have ahead : Text.asBytes ((byte :: bytes).flatMap lowerHex) =
        first :: second :: Text.asBytes (bytes.flatMap lowerHex) := by
      simp only [Text.asBytes, List.flatMap_cons, lowerHex, List.cons_append, List.nil_append,
        written, written']
    rw [ahead, decodeHex, high, low]
    simp only [ih, whole, Option.map_some]

/-- A digest is read back from its text. -/
theorem ContractDigest.parse_text (digest : ContractDigest) :
    ContractDigest.parse digest.text = some digest := by
  have read : digest.text.stripPrefix "b3:".toList =
      some (digest.bytes.toList.flatMap lowerHex) := strip_prefix_append _ _
  simp only [ContractDigest.parse, read, decode_lower_hex]
  rw [dif_pos (by simp)]
  rfl

/-- A digest's characters hold no colon. -/
theorem lower_hex_plain (bytes : List UInt8) : ':' ∉ bytes.flatMap lowerHex := by
  intro member
  obtain ⟨byte, _, inside⟩ := List.mem_flatMap.mp member
  have small : byte.toNat < 256 := byte.toNat_lt
  have apart : Rfc3987.isHex ':' = false := by rfl
  have hex : Rfc3987.isHex ':' = true := by
    simp only [lowerHex, List.mem_cons, List.not_mem_nil, or_false] at inside
    rcases inside with same | same
    · exact same ▸ lower_hex_is_hex _ (by omega)
    · exact same ▸ lower_hex_is_hex _ (by omega)
  rw [apart] at hex
  cases hex

/-- Six texts in a row, grouped as a contract IRI is read. -/
theorem regroup_contract (head id verb hex : Text) (colon : Text) (tag : Text) :
    head ++ id ++ colon ++ verb ++ colon ++ (tag ++ hex) =
      head ++ ((id ++ colon ++ verb) ++ (colon ++ tag) ++ hex) := by
  simp only [List.append_assoc]

/-- A contract IRI is read back. -/
theorem parse_contract_iri (id : Text) (verb : Verb) (digest : ContractDigest) :
    parseContractIri (contractIriOf id verb digest) = some (id, verb, digest) := by
  have tag : ":".toList ++ "b3:".toList = ":b3:".toList := by decide
  have marker : ":b3:".toList = [':', 'b', '3'] ++ [':'] := by decide
  have colon : ":".toList = [] ++ [':'] := by decide
  have shape : contractIriOf id verb digest = contractPrefix ++
      ((encodeName id ++ ":".toList ++ verbSegment verb) ++ ":b3:".toList ++
        digest.bytes.toList.flatMap lowerHex) := by
    rw [contractIriOf, ContractDigest.text, regroup_contract, tag]
  have outer : (((encodeName id ++ ":".toList ++ verbSegment verb) ++ ":b3:".toList ++
      digest.bytes.toList.flatMap lowerHex)).rsplitOnce ":b3:".toList =
        some (encodeName id ++ ":".toList ++ verbSegment verb,
          digest.bytes.toList.flatMap lowerHex) := by
    rw [marker]
    exact Text.rsplit_once_append _ _ _ ':' (lower_hex_plain _)
  have inner : (encodeName id ++ ":".toList ++ verbSegment verb).rsplitOnce ":".toList =
      some (encodeName id, verbSegment verb) := by
    rw [colon]
    exact Text.rsplit_once_append _ _ _ ':' (verb_segment_plain verb)
  have read : ContractDigest.parse ("b3:".toList ++ digest.bytes.toList.flatMap lowerHex) =
      some digest := digest.parse_text
  rw [parseContractIri, shape, strip_prefix_append]
  simp only [outer, read, inner, decode_encode_name, parse_verb_segment]

/-- Two IRIs of matches have one canonical spelling exactly when they say the same match. -/
theorem canonical_match_iri_same (iri other : Text) :
    canonicalMatchIri iri = canonicalMatchIri other ↔ parseMatchIri iri = parseMatchIri other := by
  constructor
  · intro same
    have read : ∀ iri, parseMatchIri iri = (canonicalMatchIri iri).bind parseMatchIri := by
      intro iri
      cases parts : parseMatchIri iri with
      | none => rw [canonicalMatchIri, parts, Option.map_none, Option.bind_none]
      | some parts' =>
        rw [canonicalMatchIri, parts, Option.map_some, Option.bind_some, parse_match_iri]
    rw [read iri, read other, same]
  · intro same
    rw [canonicalMatchIri, canonicalMatchIri, same]

/-- Two IRIs of contracts have one canonical spelling exactly when they say the same contract. -/
theorem canonical_contract_iri_same (iri other : Text) :
    canonicalContractIri iri = canonicalContractIri other ↔
      parseContractIri iri = parseContractIri other := by
  constructor
  · intro same
    have read : ∀ iri, parseContractIri iri = (canonicalContractIri iri).bind parseContractIri := by
      intro iri
      cases parts : parseContractIri iri with
      | none => rw [canonicalContractIri, parts, Option.map_none, Option.bind_none]
      | some parts' =>
        rw [canonicalContractIri, parts, Option.map_some, Option.bind_some, parse_contract_iri]
    rw [read iri, read other, same]
  · intro same
    rw [canonicalContractIri, canonicalContractIri, same]

/-- The canonical spelling of a match is its own. -/
theorem canonical_match_iri_idempotent (iri canonical : Text)
    (spelled : canonicalMatchIri iri = some canonical) :
    canonicalMatchIri canonical = some canonical := by
  obtain ⟨parts, _, rfl⟩ := Option.map_eq_some_iff.mp spelled
  rw [canonicalMatchIri, parse_match_iri, Option.map_some]

/-- The canonical spelling of a contract is its own. -/
theorem canonical_contract_iri_idempotent (iri canonical : Text)
    (spelled : canonicalContractIri iri = some canonical) :
    canonicalContractIri canonical = some canonical := by
  obtain ⟨parts, _, rfl⟩ := Option.map_eq_some_iff.mp spelled
  rw [canonicalContractIri, parse_contract_iri, Option.map_some]

/-- A slash is a character like any other to the encoder. -/
theorem slash_is_kept (name : Text) : '/' ∈ encodeName name ↔ '/' ∈ name := by
  constructor
  · intro member
    rcases mem_encode_where mustEncode name '/' member with ⟨there, _⟩ | same | digit
    · exact there
    · cases same
    · cases digit
  · intro member
    refine List.mem_flatMap.mpr ⟨'/', member, ?_⟩
    have plain : mustEncode '/' = false := by rfl
    rw [plain]
    exact List.mem_singleton_self '/'

/-- What becomes of a name in the IRIs it is minted into: it reads back, no character of it
is one of some, is refused or is a bare percent, and what is minted from it reads back, in
whatever spelling, as what it was minted from. -/
structure SpellingHolds (ends : List Char) : Prop where
  readBack : ∀ name, decodeSegment (encodeName name) = some name
  path : ∀ name, Rfc3987.isPath (encodeName name) = true
  free : ∀ name, ∀ c ∈ ends, c ∉ encodeName name
  matched : ∀ verb pattern, parseMatchIri (matchIri verb pattern) = some (verb, pattern)
  contract : ∀ id verb digest,
    parseContractIri (contractIriOf id verb digest) = some (id, verb, digest)
  matchOnce : ∀ iri canonical, canonicalMatchIri iri = some canonical →
    canonicalMatchIri canonical = some canonical
  contractOnce : ∀ iri canonical, canonicalContractIri iri = some canonical →
    canonicalContractIri canonical = some canonical
  matchOne : ∀ iri other,
    canonicalMatchIri iri = canonicalMatchIri other ↔ parseMatchIri iri = parseMatchIri other
  contractOne : ∀ iri other, canonicalContractIri iri = canonicalContractIri other ↔
    parseContractIri iri = parseContractIri other

/-- What ends a segment of a path: the next segment, a query or a fragment. -/
def segmentEnds : List Char := ['/', '?', '#']

/-- What ends a path. -/
def pathEnds : List Char := ['?', '#']

/-- A name that holds a slash is more than one segment. -/
theorem slash_ends_a_segment : ¬SpellingHolds segmentEnds := by
  intro holds
  exact holds.free "a/b".toList '/' (by decide) ((slash_is_kept _).mpr (by decide))

/-- Names survive their spelling, as what is one path and not one segment. -/
theorem names_survive_their_spelling : SpellingHolds pathEnds where
  readBack := decode_encode_name
  path := encode_name_path
  free name c ends := by
    simp only [pathEnds, List.mem_cons, List.not_mem_nil, or_false] at ends
    rcases ends with rfl | rfl
    · exact encode_name_free name '?' (by rfl) (by decide) (by rfl)
    · exact encode_name_free name '#' (by rfl) (by decide) (by rfl)
  matched := parse_match_iri
  contract := parse_contract_iri
  matchOnce := canonical_match_iri_idempotent
  contractOnce := canonical_contract_iri_idempotent
  matchOne := canonical_match_iri_same
  contractOne := canonical_contract_iri_same

end Ikigai
