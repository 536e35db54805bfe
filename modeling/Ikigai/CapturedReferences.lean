import Ikigai.AliasViews
import Ikigai.NamedRequests
import Ikigai.Rfc3987
import Ikigai.TemplatePieces

/-!
# References with captures in them

A reference template is filled with what a rule captured. A capture is data: escaped, it holds no
delimiter, so the name that comes out has the template's parts, each filled. What an escape cannot
hide is a dot, and the path segments with captures in them are looked at for the dot segments. They
are looked for in the path of the template as it is written, which is not the path of the name where
the template's scheme is a capture too.
-/

namespace Ikigai

namespace Rfc3987

/-- The parts of a name, as the `IRI` production cuts them. -/
structure IriParts where
  scheme : List Char
  authority : Option (List Char)
  path : List Char
  query : Option (List Char)
  fragment : Option (List Char)
deriving DecidableEq, Repr

/-- The authority and the path. -/
def hierParts : List Char → Option (List Char) × List Char
  | '/' :: '/' :: rest => (some (cutAt '/' rest).1, rest.dropWhile (· ≠ '/'))
  | path => (none, path)

def restParts (scheme rest : List Char) : IriParts :=
  let front := cutAt '#' rest
  let hier := cutAt '?' front.1
  ⟨scheme, (hierParts hier.1).1, (hierParts hier.1).2, hier.2, front.2⟩

def iriParts (text : List Char) : IriParts :=
  restParts (cutAt ':' text).1 ((cutAt ':' text).2.getD [])

namespace IriParts

def segments (parts : IriParts) : List (List Char) := parts.path.splitOn '/'

end IriParts

/-- The path of an IRI reference: of an IRI, or of a relative reference where the text opens with
no scheme. -/
def referencePath (text : List Char) : List Char :=
  if isScheme (cutAt ':' text).1 && (cutAt ':' text).2.isSome then (iriParts text).path
  else (restParts [] text).path

/-- Nothing is left behind a character that is not there. -/
theorem drop_absent (c : Char) (text : List Char) (absent : c ∉ text) :
    text.dropWhile (· ≠ c) = [] := by
  rw [List.dropWhile_eq_nil_iff]
  intro other member
  exact decide_eq_true fun same => absent (same ▸ member)

/-- What is left behind the first of a character. -/
theorem drop_first (c : Char) (front back : List Char) (absent : c ∉ front) :
    (front ++ c :: back).dropWhile (· ≠ c) = c :: back := by
  have every : ∀ other ∈ front, decide (other ≠ c) = true := by
    intro other member
    exact decide_eq_true fun same => absent (same ▸ member)
  rw [List.dropWhile_append_of_pos every, List.dropWhile_cons_of_neg (by simp)]

/-- A path that does not begin with two slashes is all path, with no authority. -/
theorem hier_of_path (path : List Char) (rooted : ∀ rest, path ≠ '/' :: '/' :: rest) :
    hierParts path = (none, path) := by
  unfold hierParts
  split
  · rename_i rest
    exact absurd rfl (rooted rest)
  · rfl

/-- A text without a character, or with a first one. -/
theorem absent_or_first (c : Char) (text : List Char) :
    c ∉ text ∨ ∃ front back, c ∉ front ∧ text = front ++ c :: back := by
  by_cases member : c ∈ text
  · obtain ⟨front, back, same, absent⟩ := List.eq_append_cons_of_mem member
    exact .inr ⟨front, back, absent, same⟩
  · exact .inl member

end Rfc3987

/-- What a rule's captures are escaped to holds none of these, and a pattern may be cut at them. -/
def delimiters : Text := [':', '/', '?', '#']

/-- A delimiter separates the parts of a template. -/
theorem delimiter_separates {c : Char} (delimits : c ∈ delimiters) : UriTemplate.Separates c := by
  simp only [delimiters, List.mem_cons, List.not_mem_nil, or_false] at delimits
  rcases delimits with rfl | rfl | rfl | rfl <;> decide

/-- A byte is escaped to no delimiter. -/
theorem percent_characters (byte : UInt8) : ∀ c ∈ percentEncode byte, c ∉ delimiters := by
  have small : byte.toNat < 256 := byte.toNat_lt
  have digits : ∀ digit < 16, hexDigit digit ∉ delimiters := by decide
  intro c inside
  simp only [percentEncode, List.mem_cons, List.not_mem_nil, or_false] at inside
  rcases inside with rfl | rfl | rfl
  · decide
  · exact digits _ (by omega)
  · exact digits _ (by omega)

/-- So a capture is. -/
theorem capture_characters (capture : Text) : ∀ c ∈ encodeCapture capture, c ∉ delimiters := by
  intro c inside
  obtain ⟨byte, _, written⟩ := List.mem_flatMap.mp inside
  dsimp only at written
  split at written
  · rename_i kept
    rw [List.mem_singleton.mp written]
    intro delimits
    simp only [delimiters, List.mem_cons, List.not_mem_nil, or_false] at delimits
    rcases delimits with same | same | same | same <;>
      · rw [same] at kept
        revert kept
        decide
  · exact percent_characters byte c written

/-- A capture with something in it is escaped to something. -/
theorem encode_capture_ne_nil (capture : Text) (given : capture ≠ []) :
    encodeCapture capture ≠ [] := by
  intro empty
  apply given
  have silent : Text.asBytes capture = [] := by
    rw [List.eq_nil_iff_forall_not_mem]
    intro byte inside
    have nothing := List.flatMap_eq_nil_iff.mp empty byte inside
    dsimp only at nothing
    split at nothing <;> cases nothing
  exact Text.as_bytes_injective capture [] silent

/-- A byte that is written as it is is its character's one byte. -/
theorem kept_byte (byte : UInt8) (kept : (Char.ofNat byte.toNat).isAlphanum = true ∨
    Char.ofNat byte.toNat ∈ ['-', '.', '_', '~']) :
    String.utf8EncodeChar (Char.ofNat byte.toNat) = [byte] ∧ byte ≠ 0x25 := by
  have small : byte.toNat < 256 := byte.toNat_lt
  have valid : byte.toNat.isValidChar := .inl (by omega)
  have value : (Char.ofNat byte.toNat).val.toNat = byte.toNat := by
    rw [Char.ofNat, dif_pos valid]
    rfl
  have bounds : byte.toNat < 128 ∧ byte.toNat ≠ 0x25 := by
    rw [← value]
    rcases kept with letter | mark
    · simp only [Char.isAlphanum, Char.isAlpha, Char.isUpper, Char.isLower, Char.isDigit,
        Bool.or_eq_true, Bool.and_eq_true, decide_eq_true_eq, ge_iff_le, UInt32.le_iff_toNat_le]
        at letter
      rcases letter with (⟨low, high⟩ | ⟨low, high⟩) | ⟨low, high⟩ <;>
        · simp only [Char.reduceVal, UInt32.reduceToNat] at low high
          omega
    · simp only [List.mem_cons, List.not_mem_nil, or_false] at mark
      rcases mark with mark | mark | mark | mark <;>
        · rw [mark]
          decide
  constructor
  · simp only [String.utf8EncodeChar, value, if_pos (show byte.toNat ≤ 0x7f by omega),
      UInt8.ofNat_toNat]
  · rintro rfl
    exact bounds.2 rfl

/-- An escaped capture is read back. -/
theorem decode_encode_capture (capture : Text) :
    decodeSegment (encodeCapture capture) = some capture := by
  have reads : ∀ bytes : List UInt8, decodeBytes (Text.asBytes (bytes.flatMap fun byte =>
      let c := Char.ofNat byte.toNat
      if c.isAlphanum || c ∈ ['-', '.', '_', '~'] then [c] else percentEncode byte)) = some bytes := by
    intro bytes
    induction bytes with
    | nil => rfl
    | cons byte bytes ih =>
      rw [Text.asBytes] at ih
      rw [Text.asBytes, List.flatMap_cons, List.flatMap_append]
      dsimp only
      split
      · rename_i kept
        obtain ⟨written, other⟩ := kept_byte byte (by simpa using kept)
        rw [List.flatMap_singleton, written, decode_plain [byte] _ (by simpa using other), ih]
        rfl
      · rw [decode_percent, ih]
        rfl
  rw [decodeSegment, encodeCapture, reads, Option.bind_some, Text.of_bytes_as_bytes]

/-- A pattern's captures are all there, none is empty, and escaped they fill it to a text. -/
def Fills (captures : List (Text × Text)) (pattern text : Text) : Prop :=
  ∃ template, UriTemplate.parse pattern = .ok template ∧
    (∀ var ∈ template.variableNames, ∃ capture, UriTemplate.bound captures var = some capture ∧
      capture ≠ []) ∧
    template.expandEncoded captures = some text

namespace Fills

variable {captures : List (Text × Text)} {pattern text : Text}

/-- Captures fill a pattern to one text at most. -/
theorem unique {other : Text} (fills : Fills captures pattern text)
    (again : Fills captures pattern other) : text = other := by
  obtain ⟨template, parsed, _, expands⟩ := fills
  obtain ⟨template', parsed', _, expands'⟩ := again
  obtain rfl := Except.ok.inj (parsed.symm.trans parsed')
  exact Option.some.inj (expands.symm.trans expands')

/-- Where a pattern is cut, what fills it is cut. -/
theorem cut {c : Char} {front back : Text} (fills : Fills captures (front ++ c :: back) text)
    (delimits : c ∈ delimiters) :
    ∃ left right, text = left ++ c :: right ∧ Fills captures front left ∧
      Fills captures back right := by
  obtain ⟨template, parsed, given, expands⟩ := fills
  obtain ⟨first, second, readFront, readBack, names, whole⟩ :=
    UriTemplate.parse_cut (delimiter_separates delimits) parsed
  rw [UriTemplate.expandEncoded, whole, Option.bind_eq_some_iff] at expands
  obtain ⟨left, expandsFront, expands⟩ := expands
  obtain ⟨right, expandsBack, rfl⟩ := Option.map_eq_some_iff.mp expands
  rw [names] at given
  refine ⟨left, right, rfl, ⟨first, readFront, ?_, expandsFront⟩, second, readBack, ?_, expandsBack⟩
  · exact fun var among => given var (List.mem_append_left _ among)
  · exact fun var among => given var (List.mem_append_right _ among)

/-- A variable expands to its capture, escaped. -/
theorem expand_part_encoded (captures : List (Text × Text)) (name : Text) :
    UriTemplate.expandPart (captures.map fun (name, capture) => (name, encodeCapture capture))
        (.var name) = (UriTemplate.bound captures name).map encodeCapture := by
  rw [UriTemplate.expandPart, UriTemplate.bound, List.find?_map, Option.map_map, Option.map_map]
  rfl

/-- A delimiter that is in no literal is in nothing the parts are filled to. -/
theorem parts_absent {c : Char} (delimits : c ∈ delimiters) (parts : List Part)
    (literals : ∀ run, .lit run ∈ parts → c ∉ run) (text : Text)
    (expands : UriTemplate.expandParts
      (captures.map fun (name, capture) => (name, encodeCapture capture)) parts = some text) :
    c ∉ text := by
  induction parts generalizing text with
  | nil =>
    cases expands
    exact List.not_mem_nil
  | cons part rest ih =>
    rw [UriTemplate.expand_parts_cons, Option.bind_eq_some_iff] at expands
    obtain ⟨first, own, expands⟩ := expands
    obtain ⟨second, later, rfl⟩ := Option.map_eq_some_iff.mp expands
    have tail := ih (fun run inside => literals run (List.mem_cons_of_mem part inside)) second later
    rw [List.mem_append, not_or]
    refine ⟨?_, tail⟩
    cases part with
    | lit run =>
      rw [← Option.some.inj own]
      exact literals run List.mem_cons_self
    | var name =>
      rw [expand_part_encoded, Option.map_eq_some_iff] at own
      obtain ⟨capture, _, rfl⟩ := own
      exact fun inside => capture_characters capture c inside delimits

/-- A delimiter that a pattern does not hold, nothing that fills it holds. -/
theorem absent {c : Char} (fills : Fills captures pattern text) (delimits : c ∈ delimiters)
    (free : c ∉ pattern) : c ∉ text := by
  obtain ⟨template, parsed, _, expands⟩ := fills
  obtain ⟨_, _, same⟩ := (UriTemplate.parse_eq_ok_iff pattern template).mp parsed
  refine parts_absent delimits template.parts ?_ text expands
  intro run inside member
  rw [← same, ← template.spelled] at free
  exact free (List.mem_flatMap.mpr ⟨.lit run, inside, member⟩)

/-- A delimiter that a pattern holds, all that fills it holds. -/
theorem present {c : Char} (fills : Fills captures pattern text) (delimits : c ∈ delimiters)
    (held : c ∈ pattern) : c ∈ text := by
  obtain ⟨front, back, rfl⟩ := List.append_of_mem held
  obtain ⟨left, right, rfl, _, _⟩ := fills.cut delimits
  exact List.mem_append_right left List.mem_cons_self

/-- The empty pattern is filled by nothing. -/
theorem nil (captures : List (Text × Text)) : Fills captures [] [] :=
  ⟨⟨[], [], rfl, nofun⟩, rfl, nofun, rfl⟩

/-- And to nothing. -/
theorem of_nil (fills : Fills captures [] text) : text = [] := by
  obtain ⟨template, parsed, _, expands⟩ := fills
  cases parsed
  exact (Option.some.inj expands).symm

/-- Only the empty pattern is filled to nothing. -/
theorem to_nil (fills : Fills captures pattern []) : pattern = [] := by
  obtain ⟨template, parsed, given, expands⟩ := fills
  obtain ⟨_, _, same⟩ := (UriTemplate.parse_eq_ok_iff pattern template).mp parsed
  rw [← same, ← template.spelled]
  cases listed : template.parts with
  | nil => rfl
  | cons part rest =>
    change UriTemplate.expandParts _ template.parts = some [] at expands
    rw [listed, UriTemplate.expand_parts_cons, Option.bind_eq_some_iff] at expands
    obtain ⟨first, own, expands⟩ := expands
    obtain ⟨second, _, nothing⟩ := Option.map_eq_some_iff.mp expands
    have silent : first = [] := (List.append_eq_nil_iff.mp nothing).1
    cases part with
    | lit run =>
      rw [← Option.some.inj own] at silent
      exact absurd silent (template.plain (.lit run) (listed ▸ List.mem_cons_self)).1
    | var name =>
      obtain ⟨capture, bound, filled⟩ := given name (by
        rw [UriTemplate.variableNames, listed]
        exact List.mem_cons_self)
      rw [expand_part_encoded, bound] at own
      cases own
      exact absurd silent (encode_capture_ne_nil capture filled)

open Rfc3987

/-- A pattern cut at its first delimiter is filled piece by piece: the captures bring none of
their own. -/
theorem cut_at {c : Char} (fills : Fills captures pattern text) (delimits : c ∈ delimiters) :
    Fills captures (cutAt c pattern).1 (cutAt c text).1 ∧
      Option.Rel (Fills captures) (cutAt c pattern).2 (cutAt c text).2 := by
  rcases absent_or_first c pattern with free | ⟨front, back, free, rfl⟩
  · rw [cut_absent c pattern free, cut_absent c text (fills.absent delimits free)]
    exact ⟨fills, .none⟩
  · obtain ⟨left, right, rfl, first, second⟩ := fills.cut delimits
    rw [cut_at_cut c front back free, cut_at_cut c left right (first.absent delimits free)]
    exact ⟨first, .some second⟩

/-- The pieces between delimiters are filled one by one. -/
theorem split_on {c : Char} (fills : Fills captures pattern text) (delimits : c ∈ delimiters) :
    List.Forall₂ (Fills captures) (pattern.splitOn c) (text.splitOn c) := by
  induction long : pattern.length using Nat.strong_induction_on generalizing pattern text with
  | _ length ih =>
    rcases absent_or_first c pattern with free | ⟨front, back, free, rfl⟩
    · rw [List.splitOn_eq_singleton free, List.splitOn_eq_singleton (fills.absent delimits free)]
      exact .cons fills .nil
    · obtain ⟨left, right, rfl, first, second⟩ := fills.cut delimits
      rw [List.splitOn_append_cons_self, List.splitOn_append_cons_self,
        List.splitOn_eq_singleton free, List.splitOn_eq_singleton (first.absent delimits free)]
      refine .cons first (ih back.length ?_ second rfl)
      rw [← long, List.length_append, List.length_cons]
      omega

/-- What fills a pattern opens with a delimiter when the pattern does. -/
theorem opens {c : Char} {rest : Text} (fills : Fills captures pattern (c :: rest))
    (delimits : c ∈ delimiters) : ∃ back, pattern = c :: back ∧ Fills captures back rest := by
  have held : c ∈ pattern := by
    by_contra free
    exact fills.absent delimits free List.mem_cons_self
  rcases absent_or_first c pattern with free | ⟨front, back, free, rfl⟩
  · exact absurd held free
  · obtain ⟨left, right, same, first, second⟩ := fills.cut delimits
    cases left with
    | nil =>
      obtain rfl := first.to_nil
      cases same
      exact ⟨back, rfl, second⟩
    | cons d left =>
      cases same
      exact absurd List.mem_cons_self (first.absent delimits free)

/-- An absent part is filled as an empty one. -/
theorem get_default {pattern text : Option Text} (fills : Option.Rel (Fills captures) pattern text) :
    Fills captures (pattern.getD []) (text.getD []) := by
  cases fills with
  | none => exact nil captures
  | some later => exact later

/-- A delimiter ahead of a pattern is ahead of what fills it. -/
theorem behind {c : Char} (fills : Fills captures pattern text) (delimits : c ∈ delimiters) :
    Fills captures (c :: pattern) (c :: text) := by
  obtain ⟨second, parsed, given, expands⟩ := fills
  obtain ⟨template, read, names, whole⟩ :=
    UriTemplate.parse_behind (delimiter_separates delimits) parsed
  rw [UriTemplate.expandEncoded] at expands
  refine ⟨template, read, names ▸ given, ?_⟩
  rw [UriTemplate.expandEncoded, whole, expands]
  rfl

/-- A pattern that begins with a delimiter is filled to a text that does. -/
theorem opened {c : Char} {back : Text} (fills : Fills captures (c :: back) text)
    (delimits : c ∈ delimiters) : ∃ rest, text = c :: rest ∧ Fills captures back rest := by
  obtain ⟨left, right, rfl, first, second⟩ :=
    (show Fills captures ([] ++ c :: back) text from fills).cut delimits
  obtain rfl := first.of_nil
  exact ⟨right, rfl, second⟩

/-- The authority and the path are filled apart. -/
theorem hier_parts (fills : Fills captures pattern text) :
    Option.Rel (Fills captures) (hierParts pattern).1 (hierParts text).1 ∧
      Fills captures (hierParts pattern).2 (hierParts text).2 := by
  have slash : '/' ∈ delimiters := by decide
  by_cases authority : ∃ rest, pattern = '/' :: '/' :: rest
  · obtain ⟨rest, rfl⟩ := authority
    obtain ⟨tail, rfl, within⟩ := fills.opened slash
    obtain ⟨after, rfl, inner⟩ := within.opened slash
    refine ⟨.some (inner.cut_at slash).1, ?_⟩
    simp only [hierParts]
    rcases absent_or_first '/' rest with free | ⟨front, back, free, rfl⟩
    · rw [drop_absent '/' rest free, drop_absent '/' after (inner.absent slash free)]
      exact nil captures
    · obtain ⟨left, right, rfl, first, second⟩ := inner.cut slash
      rw [drop_first '/' front back free, drop_first '/' left right (first.absent slash free)]
      exact second.behind slash
  · have plain : ∀ rest, text ≠ '/' :: '/' :: rest := by
      rintro rest rfl
      obtain ⟨back, rfl, within⟩ := fills.opens slash
      obtain ⟨after, rfl, _⟩ := within.opens slash
      exact authority ⟨after, rfl⟩
    rw [hier_of_path pattern fun rest same => authority ⟨rest, same⟩, hier_of_path text plain]
    exact ⟨.none, fills⟩

/-- A pattern without a capture is filled to itself. -/
theorem of_plain (fills : Fills captures pattern text) (plain : '{' ∉ pattern) : text = pattern := by
  obtain ⟨template, parsed, _, expands⟩ := fills
  obtain ⟨read, _, _⟩ := (UriTemplate.parse_eq_ok_iff pattern template).mp parsed
  have whole : ∀ rest run : Text, '{' ∉ rest →
      UriTemplate.scan run rest = .ok (UriTemplate.literal (run ++ rest)) := by
    intro rest
    induction rest with
    | nil =>
      intro run _
      rw [UriTemplate.scan, List.append_nil]
    | cons c rest ih =>
      intro run plain
      rw [List.mem_cons, not_or] at plain
      rw [UriTemplate.scan, if_neg (Ne.symm plain.1), ih (run ++ [c]) plain.2, List.append_assoc]
      rfl
  rw [whole pattern [] plain, List.nil_append] at read
  change UriTemplate.expandParts _ template.parts = some text at expands
  rw [← Except.ok.inj read, UriTemplate.expand_literal] at expands
  exact (Option.some.inj expands).symm

end Fills

/-- The parts of one text filled to those of another, segment by segment where they have
segments. -/
structure PartsFilled (captures : List (Text × Text)) (pattern name : Rfc3987.IriParts) : Prop where
  scheme : Fills captures pattern.scheme name.scheme
  authority : Option.Rel (Fills captures) pattern.authority name.authority
  path : Fills captures pattern.path name.path
  segments : List.Forall₂ (Fills captures) pattern.segments name.segments
  query : Option.Rel (Fills captures) pattern.query name.query
  fragment : Option.Rel (Fills captures) pattern.fragment name.fragment

/-- What fills a pattern has the pattern's parts, each filled. -/
theorem Fills.parts {captures : List (Text × Text)} {pattern text : Text}
    (fills : Fills captures pattern text) :
    PartsFilled captures (Rfc3987.iriParts pattern) (Rfc3987.iriParts text) := by
  have rest : Fills captures ((Rfc3987.cutAt ':' pattern).2.getD [])
      ((Rfc3987.cutAt ':' text).2.getD []) :=
    Fills.get_default (fills.cut_at (by decide : ':' ∈ delimiters)).2
  obtain ⟨front, fragment⟩ := rest.cut_at (by decide : '#' ∈ delimiters)
  obtain ⟨hier, query⟩ := front.cut_at (by decide : '?' ∈ delimiters)
  obtain ⟨authority, path⟩ := hier.hier_parts
  exact {
    scheme := (fills.cut_at (by decide)).1
    authority := authority
    path := path
    segments := path.split_on (by decide)
    query := query
    fragment := fragment }

namespace Rfc3987

/-- A scheme is made of letters, digits and three signs. -/
theorem scheme_characters (scheme : List Char) (reads : isScheme scheme = true) :
    ∀ c ∈ scheme, (c.isAlphanum || c ∈ ['+', '-', '.']) = true := by
  cases scheme with
  | nil => cases reads
  | cons first rest =>
    rw [isScheme, Bool.and_eq_true, List.all_eq_true] at reads
    intro c inside
    rcases List.mem_cons.mp inside with rfl | later
    · rw [Char.isAlphanum, reads.1]
      rfl
    · exact reads.2 c later

/-- A front without the separator changes only the first piece. -/
theorem mem_split_behind {c : Char} {front rest piece : List Char} (absent : c ∉ front)
    (later : piece ∈ (rest.splitOn c).tail) : piece ∈ ((front ++ rest).splitOn c).tail := by
  rcases absent_or_first c rest with free | ⟨first, back, free, rfl⟩
  · rw [List.splitOn_eq_singleton free] at later
    cases later
  · rw [List.splitOn_append_cons_self, List.splitOn_eq_singleton free] at later
    rw [← List.append_assoc, List.splitOn_append_cons_self,
      List.splitOn_eq_singleton (by simp [absent, free])]
    exact later

/-- The later segments of a path are pieces of what the path was cut from. -/
theorem mem_segments_hier {hier segment : List Char}
    (later : segment ∈ ((hierParts hier).2.splitOn '/').tail) :
    segment ∈ (hier.splitOn '/').tail := by
  by_cases authority : ∃ rest, hier = '/' :: '/' :: rest
  · obtain ⟨rest, rfl⟩ := authority
    simp only [hierParts] at later
    rcases absent_or_first '/' rest with free | ⟨first, back, free, rfl⟩
    · rw [drop_absent '/' rest free] at later
      cases later
    · rw [drop_first '/' first back free] at later
      have pieces : ('/' :: '/' :: (first ++ '/' :: back)).splitOn '/' =
          [] :: [] :: first :: back.splitOn '/' := by
        rw [show '/' :: '/' :: (first ++ '/' :: back) =
            [] ++ '/' :: ([] ++ '/' :: (first ++ '/' :: back)) from rfl,
          List.splitOn_append_cons_self, List.splitOn_append_cons_self,
          List.splitOn_append_cons_self, List.splitOn_eq_singleton free]
        rfl
      have tail : ('/' :: back).splitOn '/' = [] :: back.splitOn '/' := by
        rw [show '/' :: back = [] ++ '/' :: back from rfl, List.splitOn_append_cons_self]
        rfl
      rw [tail] at later
      rw [pieces]
      exact List.mem_cons_of_mem _ (List.mem_cons_of_mem _ later)
  · rwa [hier_of_path hier fun rest same => authority ⟨rest, same⟩] at later

/-- Cutting behind a text that lacks the character keeps that text. -/
theorem cut_behind (c : Char) (front rest : List Char) (absent : c ∉ front) :
    (cutAt c (front ++ rest)).1 = front ++ (cutAt c rest).1 := by
  have every : ∀ other ∈ front, decide (other ≠ c) = true := by
    intro other member
    exact decide_eq_true fun same => absent (same ▸ member)
  exact List.takeWhile_append_of_pos every

/-- Read without its scheme, a text has all the later segments it has with it. -/
theorem later_segments {scheme rest segment : List Char} (given : scheme ≠ [])
    (plain : ∀ c ∈ scheme, c ≠ ':' ∧ c ≠ '/' ∧ c ≠ '?' ∧ c ≠ '#')
    (later : segment ∈ (iriParts (scheme ++ ':' :: rest)).segments.tail) :
    segment ∈ (restParts [] (scheme ++ ':' :: rest)).segments := by
  have absent : ∀ c ∈ ['/', '?', '#'], c ∉ scheme ++ [':'] := by
    intro c among member
    rcases List.mem_append.mp member with inside | last
    · have := plain c inside
      simp only [List.mem_cons, List.not_mem_nil, or_false] at among
      rcases among with rfl | rfl | rfl <;> simp at this
    · rw [List.mem_singleton.mp last] at among
      revert among
      decide
  have cut := cut_at_cut ':' scheme rest fun inside => (plain ':' inside).1 rfl
  simp only [iriParts, cut, Option.getD_some, restParts, IriParts.segments] at later
  rw [show scheme ++ ':' :: rest = (scheme ++ [':']) ++ rest by simp]
  simp only [restParts, IriParts.segments]
  rw [cut_behind '#' _ rest (absent '#' (by decide)),
    cut_behind '?' _ (cutAt '#' rest).1 (absent '?' (by decide)), hier_of_path]
  · exact List.mem_of_mem_tail (mem_split_behind (absent '/' (by decide)) (mem_segments_hier later))
  · intro tail same
    cases scheme with
    | nil => exact given rfl
    | cons c scheme =>
      exact (plain c List.mem_cons_self).2.1 (List.cons.inj same).1

end Rfc3987

/-- No segment with a capture in it is filled to a dot segment. -/
def Undotted (captures : List (Text × Text)) (segments : List Text) : Prop :=
  ∀ segment ∈ segments, '{' ∈ segment → ∀ text, Fills captures segment text →
    text ≠ ".".toList ∧ text ≠ "..".toList

/-- A name that its captures did not restructure: an IRI with the parts of the template, each
filled, and no dot segment made of a capture. -/
structure Contained [IriSyntax] (captures : List (Text × Text)) (pattern name : Text) : Prop where
  valid : IriSyntax.isIri name = true
  filled : PartsFilled captures (Rfc3987.iriParts pattern) (Rfc3987.iriParts name)
  undotted : Undotted captures (Rfc3987.iriParts pattern).segments

/-- The template's scheme has a capture in it, and so has the first segment of its path, which its
captures fill to a dot segment. -/
def DotBehindScheme (captures : List (Text × Text)) (pattern : Text) : Prop :=
  '{' ∈ (Rfc3987.iriParts pattern).scheme ∧
    ∃ segment, (Rfc3987.iriParts pattern).segments.head? = some segment ∧ '{' ∈ segment ∧
      (Fills captures segment ".".toList ∨ Fills captures segment "..".toList)

section Answers

variable [IriSyntax]

omit [IriSyntax] in
/-- A segment that is let through is filled to no dot segment. -/
theorem dot_segment_passed {captures : List (Text × Text)} {segment text : Text}
    (passed : dotSegment captures segment = .ok false) (captured : '{' ∈ segment)
    (fills : Fills captures segment text) : text ≠ ".".toList ∧ text ≠ "..".toList := by
  obtain ⟨template, parsed, _, expands⟩ := fills
  rw [dotSegment, if_pos captured, parsed] at passed
  simpa only [expands, Option.any_some, Except.ok.injEq, Bool.or_eq_false_iff,
    decide_eq_false_iff_not] using passed

omit [IriSyntax] in
/-- Segments that are all let through are each let through. -/
theorem check_segments_passed {captures : List (Text × Text)} {segments : List Text}
    (passed : checkSegments captures segments = .ok ()) :
    ∀ segment ∈ segments, dotSegment captures segment = .ok false := by
  induction segments with
  | nil => exact fun _ among => absurd among List.not_mem_nil
  | cons first rest ih =>
    rw [checkSegments] at passed
    split at passed
    · cases passed
    · cases passed
    · rename_i own
      intro segment among
      rcases List.mem_cons.mp among with rfl | later
      · exact own
      · exact ih passed segment later

variable [IriPath]

/-- A capture that is missing or empty is refused. -/
theorem reference_refused {template : UriTemplate} {captures : List (Text × Text)} {var : Text}
    (among : var ∈ template.variableNames)
    (lacks : UriTemplate.bound captures var = none ∨ UriTemplate.bound captures var = some []) :
    ∃ detail, referenceFromTemplate template captures = .error detail := by
  cases answered : referenceFromTemplate template captures with
  | error detail => exact ⟨detail, rfl⟩
  | ok name =>
    obtain ⟨capture, bound, filled⟩ := (reference_answered answered).1 var among
    rcases lacks with missing | empty
    · rw [missing] at bound
      cases bound
    · rw [empty] at bound
      exact absurd (Option.some.inj bound).symm filled

/-- The path that is looked at is the template's own, or it holds all of its later segments. -/
theorem looked_at (isIri : ∀ text, IriSyntax.isIri text = Rfc3987.isIri text)
    (reads : ∀ text, IriPath.path text = Rfc3987.referencePath text)
    {captures : List (Text × Text)} {pattern name : Text} (fills : Fills captures pattern name)
    (valid : IriSyntax.isIri name = true) :
    IriPath.path pattern = (Rfc3987.iriParts pattern).path ∨
      '{' ∈ (Rfc3987.iriParts pattern).scheme ∧
        ∀ segment ∈ (Rfc3987.iriParts pattern).segments.tail,
          segment ∈ (IriPath.path pattern).splitOn '/' := by
  rw [isIri, Rfc3987.isIri, Bool.and_eq_true] at valid
  rcases Rfc3987.absent_or_first ':' pattern with free | ⟨scheme, rest, free, rfl⟩
  · rw [Rfc3987.cut_absent ':' name (fills.absent (by decide) free)] at valid
    cases valid.2
  · have cut := Rfc3987.cut_at_cut ':' scheme rest free
    have parts : (Rfc3987.iriParts (scheme ++ ':' :: rest)).scheme = scheme := congrArg Prod.fst cut
    have filled : Fills captures scheme (Rfc3987.cutAt ':' name).1 := parts ▸ fills.parts.scheme
    rw [reads, Rfc3987.referencePath, cut, parts]
    have unkept : ∀ c ∈ delimiters, (c.isAlphanum || decide (c ∈ ['+', '-', '.'])) = false := by
      intro c delimits
      simp only [delimiters, List.mem_cons, List.not_mem_nil, or_false] at delimits
      rcases delimits with rfl | rfl | rfl | rfl <;> rfl
    by_cases captured : '{' ∈ scheme
    · have unread : Rfc3987.isScheme scheme = false := by
        rw [← Bool.not_eq_true]
        intro read
        exact absurd (Rfc3987.scheme_characters scheme read '{' captured) (by decide)
      rw [unread, Bool.false_and, if_neg Bool.false_ne_true]
      refine .inr ⟨captured, fun segment later => Rfc3987.later_segments ?_ ?_ later⟩
      · rintro rfl
        cases captured
      · intro c inside
        refine ⟨fun same => free (same ▸ inside), ?_⟩
        have apart : ∀ d ∈ delimiters, c ≠ d := by
          rintro d delimits rfl
          have kept := Rfc3987.scheme_characters _ valid.1 c (filled.present delimits inside)
          rw [unkept c delimits] at kept
          cases kept
        exact ⟨apart '/' (by decide), apart '?' (by decide), apart '#' (by decide)⟩
    · rw [filled.of_plain captured] at valid
      rw [valid.1]
      exact .inl rfl

/-- Of every template and all captures: a capture that is missing or empty is refused; a capture is
read back from its escape; and a name that is answered was not restructured exactly when no capture
in the template's scheme hides a dot segment behind it. -/
theorem references_contained_iff (isIri : ∀ text, IriSyntax.isIri text = Rfc3987.isIri text)
    (reads : ∀ text, IriPath.path text = Rfc3987.referencePath text) (pattern : Text)
    (template : UriTemplate) (parsed : UriTemplate.parse pattern = .ok template)
    (captures : List (Text × Text)) :
    (∀ var ∈ template.variableNames,
        UriTemplate.bound captures var = none ∨ UriTemplate.bound captures var = some [] →
          ∃ detail, referenceFromTemplate template captures = .error detail) ∧
      (∀ capture, decodeSegment (encodeCapture capture) = some capture) ∧
      ∀ name, referenceFromTemplate template captures = .ok name →
        (Contained captures pattern name ↔ ¬DotBehindScheme captures pattern) := by
  refine ⟨fun var among lacks => reference_refused among lacks, decode_encode_capture, ?_⟩
  intro name answered
  obtain ⟨given, passed, expands, valid⟩ := reference_answered answered
  have fills : Fills captures pattern name := ⟨template, parsed, given, expands⟩
  rw [((UriTemplate.parse_eq_ok_iff pattern template).mp parsed).2.2] at passed
  constructor
  · rintro contained ⟨_, segment, first, captured, dots⟩
    have among : segment ∈ (Rfc3987.iriParts pattern).segments := List.mem_of_head? first
    rcases dots with single | double
    · exact (contained.undotted segment among captured _ single).1 rfl
    · exact (contained.undotted segment among captured _ double).2 rfl
  · intro clear
    refine ⟨valid, fills.parts, ?_⟩
    intro segment among captured text own
    rcases looked_at isIri reads fills valid with same | ⟨behind, later⟩
    · rw [same] at passed
      exact dot_segment_passed (check_segments_passed passed segment among) captured own
    · cases listed : (Rfc3987.iriParts pattern).segments with
      | nil =>
        rw [listed] at among
        cases among
      | cons first rest =>
        rw [listed] at among later
        rcases List.mem_cons.mp among with rfl | inside
        · have head : (Rfc3987.iriParts pattern).segments.head? = some segment := by rw [listed]; rfl
          constructor
          · rintro rfl
            exact clear ⟨behind, segment, head, captured, .inl own⟩
          · rintro rfl
            exact clear ⟨behind, segment, head, captured, .inr own⟩
        · exact dot_segment_passed (check_segments_passed passed segment (later segment inside))
            captured own

end Answers

namespace CapturedScheme

@[reducible] def grammar : IriSyntax where
  isIri := Rfc3987.isIri
  refusal := fun text => "No scheme found in an absolute IRI: ".toList ++ text

@[reducible] def places : IriPath where
  path := Rfc3987.referencePath

def pattern : Text := ['{', 's', '}', ':', '{', 'n', '}']

def logicalText : Text := ['u', 'r', 'n', ':', 'r', ':'] ++ pattern

def parts : List Part := [.var ['s'], .lit [':'], .var ['n']]

/-- The example's parts have no brace in them. -/
theorem parts_plain : ∀ part ∈ parts, part.Plain := by simp [parts, Part.Plain]

def template : UriTemplate := ⟨parts, pattern, by decide, parts_plain⟩

def logicalParts : List Part := .lit ['u', 'r', 'n', ':', 'r', ':'] :: parts

theorem logical_parts_plain : ∀ part ∈ logicalParts, part.Plain := by
  simp [logicalParts, parts, Part.Plain]

def logical : UriTemplate := ⟨logicalParts, logicalText, by decide, logical_parts_plain⟩

def argument : FixedArgument := ⟨['f'], .referenceTemplate template⟩

/-- What is written `urn:r:{s}:{n}` is a request that is given the reference `{s}:{n}`. -/
def rule : DeclaredRule where
  kind := .exact
  source := logicalText
  target := ['u', 'r', 'n', ':', 't']
  resolveAt := .root
  template := true
  fixes := [argument]

def captures : List (Text × Text) := [(['n'], ['.']), (['s'], ['u', 'r', 'n'])]

/-- The template the rule fixes, as it is read. -/
theorem pattern_parses : UriTemplate.parse pattern = .ok template :=
  (UriTemplate.parse_eq_ok_iff _ _).mpr (by decide)

theorem logical_parses : UriTemplate.parse logicalText = .ok logical :=
  (UriTemplate.parse_eq_ok_iff _ _).mpr (by decide)

/-- The sample that a template is tried with when its rule is read. -/
def sampled : Text := ['s', 'e', 'g', 'm', 'e', 'n', 't']

/-- The rule passes the check of what it fixes: tried with the sample the template gives an IRI.
-/
theorem fixed_accepted :
    @DeclaredRule.checkFixed grammar rule [['s'], ['n']] argument = .ok () := by
  have known : template.variableNames.find? (· ∉ [['s'], ['n']]) = none := by decide
  have segment : "segment".toList = sampled := by decide
  have expanded : template.expandEncoded (template.variableNames.map fun var => (var, sampled)) =
      some (sampled ++ ':' :: sampled) := by decide
  rw [argument]
  simp only [DeclaredRule.checkFixed]
  rw [known]
  dsimp only
  rw [if_neg (by decide), segment, expanded]
  exact if_pos (by decide)

/-- So the rule is accepted. -/
theorem rule_accepted : @DeclaredRule.requestPart grammar rule =
    .ok ⟨some logical, none, none, [argument], []⟩ := by
  have named : rule.isNamed = true := by decide
  have read : rule.logicalTemplate = .ok (some logical) := by
    simp only [DeclaredRule.logicalTemplate, DeclaredRule.readPattern]
    rw [show rule.source = logicalText from rfl, logical_parses]
    rfl
  have target : rule.targetTemplate [['s'], ['n']] = .ok none := by decide
  have name : @DeclaredRule.checkName rule ['f'] "it fixes" = .ok () := by
    rw [DeclaredRule.checkName, if_neg (by decide)]
  have face : "as".toList = ['a', 's'] := by decide
  have fixes : @DeclaredRule.checkFixes grammar rule [['s'], ['n']] [argument] [] = .ok [['f']] := by
    have given : argument.name = ['f'] := rfl
    simp only [DeclaredRule.checkFixes, given, face, name, fixed_accepted]
    rfl
  have vars : ((some logical).map UriTemplate.variableNames).getD [] = [['s'], ['n']] := by decide
  have rooted : rule.resolveAt = .root := rfl
  have verb : rule.verb = none := rfl
  have fixed : rule.fixes = [argument] := rfl
  have inputs : rule.inputs = [] := rfl
  simp only [DeclaredRule.requestPart, named, read, rooted, verb, fixed, inputs]
  simp only [bind, Except.bind, vars, target, fixes]
  rfl

/-- The first segment of its path. -/
def first : UriTemplate := ⟨[.var ['n']], ['{', 'n', '}'], by decide, by simp [Part.Plain]⟩

/-- The first segment of the path, read alone. -/
theorem first_parses : UriTemplate.parse ['{', 'n', '}'] = .ok first :=
  (UriTemplate.parse_eq_ok_iff _ _).mpr (by decide)

/-- It is filled by the captured dot. -/
theorem name_filled : Fills captures ['{', 'n', '}'] ['.'] :=
  ⟨first, first_parses, by
      intro var among
      rw [List.mem_singleton.mp among]
      exact ⟨['.'], by decide, by decide⟩, by decide⟩

/-- A rule that is accepted captures a scheme and a dot, and answers the name `urn:.`, whose one
segment is the dot. -/
theorem dot_is_answered :
    @DeclaredRule.requestPart grammar rule = .ok ⟨some logical, none, none, [argument], []⟩ ∧
      argument.value = .referenceTemplate template ∧
      UriTemplate.parse pattern = .ok template ∧
      logical.matchIri ['u', 'r', 'n', ':', 'r', ':', 'u', 'r', 'n', ':', '.'] = some captures ∧
      @referenceFromTemplate grammar places template captures = .ok ['u', 'r', 'n', ':', '.'] ∧
      ¬@Contained grammar captures pattern ['u', 'r', 'n', ':', '.'] := by
  refine ⟨rule_accepted, rfl, pattern_parses, by decide, by decide, ?_⟩
  intro contained
  have undotted := @Contained.undotted grammar _ _ _ contained
  exact (undotted ['{', 'n', '}'] (by decide) (by decide) ['.'] name_filled).1 (by decide)

/-- A scheme and a segment that is no dot. -/
def plainCaptures : List (Text × Text) := [(['n'], ['r', '.']), (['s'], ['u', 'r', 'n'])]

/-- The dot is there behind the scheme, and decides; behind it `r.` is let through unharmed. -/
theorem scheme_decides :
    (@Contained grammar captures pattern ['u', 'r', 'n', ':', '.'] ↔
        ¬DotBehindScheme captures pattern) ∧
      @Contained grammar plainCaptures pattern ['u', 'r', 'n', ':', 'r', '.'] := by
  have decides (given : List (Text × Text)) := (@references_contained_iff grammar places
    (fun _ => rfl) (fun _ => rfl) pattern template pattern_parses given).2.2
  refine ⟨decides captures _ (by decide), (decides plainCaptures _ (by decide)).mpr ?_⟩
  rintro ⟨_, segment, head, _, dots⟩
  have listed : (Rfc3987.iriParts pattern).segments.head? = some ['{', 'n', '}'] := by decide
  cases Option.some.inj (listed.symm.trans head)
  have filled (text : Text) (fills : Fills plainCaptures ['{', 'n', '}'] text) :
      text = ['r', '.'] := by
    obtain ⟨segmented, parsed, _, expands⟩ := fills
    cases Except.ok.inj (parsed.symm.trans first_parses)
    exact Option.some.inj (expands.symm.trans (by decide))
  rcases dots with single | double
  · exact absurd (filled _ single) (by decide)
  · exact absurd (filled _ double) (by decide)

end CapturedScheme

end Ikigai
