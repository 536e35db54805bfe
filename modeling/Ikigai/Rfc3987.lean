import Mathlib

/-!
# Absolute IRIs

The `IRI` production of RFC 3987 as a decision: a scheme, a hierarchical part with or
without an authority, a query, a fragment. Nothing it accepts holds a character that an
RDF `IRIREF` forbids.
-/

namespace Ikigai.Rfc3987

def isHex (c : Char) : Bool :=
  c.isDigit || ('a' ≤ c && c ≤ 'f') || ('A' ≤ c && c ≤ 'F')

def isUcschar (c : Char) : Bool :=
  let point := c.toNat
  (0xA0 ≤ point && point ≤ 0xD7FF) || (0xF900 ≤ point && point ≤ 0xFDCF) ||
    (0xFDF0 ≤ point && point ≤ 0xFFEF) ||
    ((0x10000 ≤ point && point ≤ 0xEFFFD) && point % 0x10000 ≤ 0xFFFD &&
      !(0xE0000 ≤ point && point ≤ 0xE0FFF))

def isPrivate (c : Char) : Bool :=
  let point := c.toNat
  (0xE000 ≤ point && point ≤ 0xF8FF) || (0xF0000 ≤ point && point ≤ 0xFFFFD) ||
    (0x100000 ≤ point && point ≤ 0x10FFFD)

def isUnreserved (c : Char) : Bool := c.isAlphanum || c ∈ ['-', '.', '_', '~'] || isUcschar c

def isSubDelim (c : Char) : Bool := c ∈ ['!', '$', '&', '\'', '(', ')', '*', '+', ',', ';', '=']

def isUser (c : Char) : Bool := isUnreserved c || isSubDelim c || c = ':'

def isPchar (c : Char) : Bool := isUser c || c = '@'

/-- Every character is allowed, or opens an escape. -/
def spelled (allowed : Char → Bool) : List Char → Bool
  | [] => true
  | c :: rest =>
    if c = '%' then
      match rest with
      | first :: second :: rest => isHex first && isHex second && spelled allowed rest
      | _ => false
    else allowed c && spelled allowed rest

/-- Cut at the first of a character. -/
def cutAt (c : Char) (text : List Char) : List Char × Option (List Char) :=
  (text.takeWhile (· ≠ c), (text.dropWhile (· ≠ c)).tail?)

def isScheme : List Char → Bool
  | [] => false
  | c :: rest => c.isAlpha && rest.all fun c => c.isAlphanum || c ∈ ['+', '-', '.']

def isPath (path : List Char) : Bool := spelled (fun c => isPchar c || c = '/') path

def isQuery (query : List Char) : Bool :=
  spelled (fun c => isPchar c || isPrivate c || c = '/' || c = '?') query

def isFragment (fragment : List Char) : Bool :=
  spelled (fun c => isPchar c || c = '/' || c = '?') fragment

def isGroup (group : List Char) : Bool :=
  !group.isEmpty && group.length ≤ 4 && group.all isHex

def isOctet (octet : List Char) : Bool :=
  !octet.isEmpty && octet.all Char.isDigit && octet.length ≤ 3 &&
    (octet.length = 1 || octet.head? ≠ some '0') && Nat.ofDigitChars 10 octet 0 ≤ 255

def isV4 (address : List Char) : Bool :=
  let octets := address.splitOn '.'
  octets.length = 4 && octets.all isOctet

/-- How many 16-bit units some groups come to; the last of an address may be an IPv4 one. -/
def units (groups : List (List Char)) (last : Bool) : Option Nat :=
  match groups.getLast? with
  | none => some 0
  | some group =>
    if !groups.dropLast.all isGroup then none
    else if isGroup group then some groups.length
    else if last && isV4 group then some (groups.length + 1)
    else none

/-- The groups between colons; none in an empty text. -/
def groupsOf (text : List Char) : List (List Char) := if text.isEmpty then [] else text.splitOn ':'

/-- Cut at the first double colon. -/
def cutDouble : List Char → Option (List Char × List Char)
  | ':' :: ':' :: rest => some ([], rest)
  | c :: rest => (cutDouble rest).map fun cut => (c :: cut.1, cut.2)
  | [] => none

def isV6 (address : List Char) : Bool :=
  match cutDouble address with
  | none => units (groupsOf address) true = some 8
  | some (left, right) =>
    match units (groupsOf left) false, units (groupsOf right) true with
    | some before, some after => before + after ≤ 7
    | _, _ => false

def isFuture : List Char → Bool
  | [] => false
  | c :: rest =>
    (c = 'v' || c = 'V') && !(cutAt '.' rest).1.isEmpty && (cutAt '.' rest).1.all isHex &&
      (cutAt '.' rest).2.any fun address =>
        !address.isEmpty && address.all fun c => isUser c && !isUcschar c

def isLiteral (literal : List Char) : Bool :=
  (literal.all fun c => isHex c || c = ':' || c = '.') && isV6 literal || isFuture literal

def isPort (port : List Char) : Bool := port.all Char.isDigit

def isPortPart : List Char → Bool
  | [] => true
  | c :: port => c = ':' && isPort port

def isHost : List Char → Bool
  | '[' :: rest => isLiteral (cutAt ']' rest).1 && (cutAt ']' rest).2.any isPortPart
  | host =>
    spelled (fun c => isUnreserved c || isSubDelim c) (cutAt ':' host).1 &&
      (cutAt ':' host).2.all isPort

def isAuthority (authority : List Char) : Bool :=
  match (cutAt '@' authority).2 with
  | some host => spelled isUser (cutAt '@' authority).1 && isHost host
  | none => isHost authority

def isHier : List Char → Bool
  | '/' :: '/' :: rest =>
    isAuthority (rest.takeWhile (· ≠ '/')) && isPath (rest.dropWhile (· ≠ '/'))
  | path => isPath path

/-- What follows the scheme. -/
def isRest (rest : List Char) : Bool :=
  isHier (cutAt '?' (cutAt '#' rest).1).1 && (cutAt '?' (cutAt '#' rest).1).2.all isQuery &&
    (cutAt '#' rest).2.all isFragment

/-- The `IRI` production. -/
def isIri (text : List Char) : Bool :=
  isScheme (cutAt ':' text).1 && (cutAt ':' text).2.any isRest

/-- What an RDF `IRIREF` forbids. -/
def isForbidden (c : Char) : Bool :=
  decide (c.toNat ≤ 0x20) || c ∈ ['<', '>', '"', '\x7b', '\x7d', '|', '^', '\x60', '\\']

/-- A text without forbidden characters. -/
def Plain (text : List Char) : Prop := ∀ c ∈ text, isForbidden c = false

/-- A plain text with one more character that is not forbidden. -/
theorem Plain.cons {c : Char} {text : List Char} (first : isForbidden c = false)
    (rest : Plain text) : Plain (c :: text) := by
  intro other member
  rcases List.mem_cons.mp member with rfl | member
  · exact first
  · exact rest other member

/-- Plain texts one after the other. -/
theorem Plain.append {left right : List Char} (first : Plain left) (rest : Plain right) :
    Plain (left ++ right) := by
  intro other member
  rcases List.mem_append.mp member with member | member
  · exact first other member
  · exact rest other member

/-- Whether a class of characters leaves out each forbidden one. -/
def excludes (allowed : Char → Bool) : Bool :=
  ((List.range 0x21).map Char.ofNat ++
    ['<', '>', '"', '\x7b', '\x7d', '|', '^', '\x60', '\\']).all fun c => !allowed c

/-- A class of characters that leaves out each forbidden one. -/
def Excludes (allowed : Char → Bool) : Prop := excludes allowed = true

instance (allowed : Char → Bool) : Decidable (Excludes allowed) :=
  inferInstanceAs (Decidable (excludes allowed = true))

/-- What is allowed where nothing forbidden is, is plain. -/
theorem Excludes.plain {allowed : Char → Bool} (excludes : Excludes allowed) (c : Char)
    (member : allowed c = true) : isForbidden c = false := by
  by_contra forbidden
  simp only [Bool.not_eq_false, isForbidden, Bool.or_eq_true, decide_eq_true_eq] at forbidden
  have listed : c ∈ (List.range 0x21).map Char.ofNat ++
      ['<', '>', '"', '\x7b', '\x7d', '|', '^', '\x60', '\\'] := by
    rcases forbidden with low | listed
    · refine List.mem_append_left _ (List.mem_map.mpr ⟨c.toNat, ?_, Char.ofNat_toNat c⟩)
      exact List.mem_range.mpr (by omega)
    · exact List.mem_append_right _ listed
  have apart := List.all_eq_true.mp excludes c listed
  rw [member] at apart
  cases apart

/-- So is a text made of it. -/
theorem Excludes.all {allowed : Char → Bool} (excludes : Excludes allowed) (text : List Char)
    (every : text.all allowed = true) : Plain text :=
  fun c member => excludes.plain c (List.all_eq_true.mp every c member)

/-- No hexadecimal digit is forbidden. -/
theorem hex_excludes : Excludes isHex := by rfl

/-- Nor is what spells allowed characters and escapes. -/
theorem Excludes.spelled {allowed : Char → Bool} (excludes : Excludes allowed)
    (text : List Char) (reads : spelled allowed text = true) : Plain text := by
  fun_induction Rfc3987.spelled allowed text with
  | case1 => exact fun _ member => by cases member
  | case2 first second rest ih =>
    simp only [Bool.and_eq_true] at reads
    exact .cons (by decide) (.cons (hex_excludes.plain _ reads.1.1)
      (.cons (hex_excludes.plain _ reads.1.2) (ih reads.2)))
  | case3 => cases reads
  | case4 c rest other ih =>
    rw [Bool.and_eq_true] at reads
    exact .cons (excludes.plain c reads.1) (ih reads.2)

/-- What is cut is plain when its parts are, and the character it is cut at. -/
theorem plain_of_cut (c : Char) (text : List Char) (allowed : isForbidden c = false)
    (first : Plain (cutAt c text).1)
    (rest : ∀ tail, (cutAt c text).2 = some tail → Plain tail) : Plain text := by
  have whole : text = (cutAt c text).1 ++ text.dropWhile (· ≠ c) :=
    (List.takeWhile_append_dropWhile).symm
  rw [whole]
  refine first.append ?_
  cases after : text.dropWhile (· ≠ c) with
  | nil => exact fun _ member => by cases member
  | cons found tail =>
    have same : found = c := by
      have stops := List.head_dropWhile_not (p := fun other => decide (other ≠ c)) (l := text)
        (by rw [after]; exact List.cons_ne_nil _ _)
      simp only [after, List.head_cons] at stops
      simpa using stops
    subst same
    exact .cons allowed (rest tail (by rw [cutAt, after]; rfl))

/-- The characters of each part of an IRI leave out those that are forbidden everywhere: the
user's. -/
theorem user_excludes : Excludes isUser := by rfl

/-- The path's. -/
theorem path_excludes : Excludes fun c => isPchar c || c = '/' := by rfl

/-- The query's. -/
theorem query_excludes : Excludes fun c => isPchar c || isPrivate c || c = '/' || c = '?' := by
  rfl

/-- The fragment's. -/
theorem fragment_excludes : Excludes fun c => isPchar c || c = '/' || c = '?' := by
  rfl

/-- The registered name's. -/
theorem name_excludes : Excludes fun c => isUnreserved c || isSubDelim c := by rfl

theorem digit_excludes : Excludes Char.isDigit := by rfl

/-- A scheme is plain. -/
theorem plain_scheme (scheme : List Char) (reads : isScheme scheme = true) : Plain scheme := by
  cases scheme with
  | nil => cases reads
  | cons c rest =>
    have first : Excludes Char.isAlpha := by rfl
    have further : Excludes fun c : Char => c.isAlphanum || c ∈ ['+', '-', '.'] := by
      rfl
    simp only [isScheme, Bool.and_eq_true] at reads
    exact .cons (first.plain c reads.1) (further.all rest reads.2)

/-- A literal address of a future version is plain. -/
theorem plain_future (literal : List Char) (reads : isFuture literal = true) :
    Plain literal := by
  cases literal with
  | nil => cases reads
  | cons c rest =>
    have version : Excludes fun c => decide (c = 'v') || decide (c = 'V') := by rfl
    have further : Excludes fun c => isUser c && !isUcschar c := by rfl
    simp only [isFuture, Bool.and_eq_true] at reads
    obtain ⟨⟨⟨opens, _⟩, hexes⟩, address⟩ := reads
    obtain ⟨tail, cut, spelled⟩ := (Option.any_eq_true _ _).mp address
    refine .cons (version.plain c opens) (plain_of_cut '.' rest (by decide)
      (hex_excludes.all _ hexes) fun other same => ?_)
    rw [cut, Option.some.injEq] at same
    subst same
    exact further.all _ (Bool.and_eq_true_iff.mp spelled).2

/-- A literal address is plain, of whichever version. -/
theorem plain_literal (literal : List Char) (reads : isLiteral literal = true) :
    Plain literal := by
  simp only [isLiteral, Bool.or_eq_true, Bool.and_eq_true] at reads
  rcases reads with sixth | future
  · have v6 : Excludes fun c => isHex c || c = ':' || c = '.' := by rfl
    exact v6.all literal sixth.1
  · exact plain_future literal future

/-- What follows a host is plain: a port or nothing. -/
theorem plain_port_part (part : List Char) (reads : isPortPart part = true) : Plain part := by
  cases part with
  | nil => exact fun _ member => by cases member
  | cons c port =>
    simp only [isPortPart, Bool.and_eq_true, decide_eq_true_eq] at reads
    obtain ⟨rfl, digits⟩ := reads
    exact .cons (by decide) (digit_excludes.all port digits)

/-- A host is plain, by address or by name. -/
theorem plain_host (host : List Char) (reads : isHost host = true) : Plain host := by
  unfold isHost at reads
  split at reads
  · rename_i rest
    rw [Bool.and_eq_true] at reads
    obtain ⟨after, cut, port⟩ := (Option.any_eq_true _ _).mp reads.2
    refine .cons (by decide) (plain_of_cut ']' rest (by decide)
      (plain_literal _ reads.1) fun tail same => ?_)
    rw [cut, Option.some.injEq] at same
    exact same ▸ plain_port_part after port
  · rw [Bool.and_eq_true] at reads
    refine plain_of_cut ':' _ (by decide) (name_excludes.spelled _ reads.1) fun tail same => ?_
    have port := reads.2
    rw [same] at port
    exact digit_excludes.all tail port

/-- An authority is plain, with its user and its port. -/
theorem plain_authority (authority : List Char) (reads : isAuthority authority = true) :
    Plain authority := by
  unfold isAuthority at reads
  split at reads
  · rename_i host cut
    rw [Bool.and_eq_true] at reads
    refine plain_of_cut '@' authority (by decide) (user_excludes.spelled _ reads.1)
      fun tail same => ?_
    rw [cut, Option.some.injEq] at same
    exact same ▸ plain_host host reads.2
  · exact plain_host authority reads

/-- A hierarchical part is plain, with an authority or without. -/
theorem plain_hier (hier : List Char) (reads : isHier hier = true) : Plain hier := by
  unfold isHier at reads
  split at reads
  · rename_i rest
    rw [Bool.and_eq_true] at reads
    have whole : rest = rest.takeWhile (· ≠ '/') ++ rest.dropWhile (· ≠ '/') :=
      List.takeWhile_append_dropWhile.symm
    refine .cons (by decide) (.cons (by decide) ?_)
    rw [whole]
    exact (plain_authority _ reads.1).append (path_excludes.spelled _ reads.2)
  · exact path_excludes.spelled _ reads

/-- All that follows a scheme is plain. -/
theorem plain_rest (rest : List Char) (reads : isRest rest = true) : Plain rest := by
  simp only [isRest, Bool.and_eq_true] at reads
  obtain ⟨⟨hier, query⟩, fragment⟩ := reads
  refine plain_of_cut '#' rest (by decide) (plain_of_cut '?' _ (by decide)
    (plain_hier _ hier) fun tail same => ?_) fun tail same => ?_
  · rw [same] at query
    exact query_excludes.spelled tail query
  · rw [same] at fragment
    exact fragment_excludes.spelled tail fragment

/-- An IRI holds no character that an `IRIREF` forbids. -/
theorem plain_iri (text : List Char) (reads : isIri text = true) : Plain text := by
  simp only [isIri, Bool.and_eq_true] at reads
  obtain ⟨rest, cut, further⟩ := (Option.any_eq_true _ _).mp reads.2
  refine plain_of_cut ':' text (by decide) (plain_scheme _ reads.1) fun tail same => ?_
  rw [cut, Option.some.injEq] at same
  exact same ▸ plain_rest rest further

/-- Spelled texts one after the other spell both. -/
theorem spelled_append (allowed : Char → Bool) (left right : List Char)
    (first : spelled allowed left = true) (rest : spelled allowed right = true) :
    spelled allowed (left ++ right) = true := by
  fun_induction spelled allowed left with
  | case1 => exact rest
  | case2 one two tail ih =>
    simp only [Bool.and_eq_true] at first
    simp only [List.cons_append, spelled, if_pos, Bool.and_eq_true]
    exact ⟨first.1, ih first.2⟩
  | case3 => cases first
  | case4 c tail other ih =>
    rw [Bool.and_eq_true] at first
    rw [List.cons_append, spelled.eq_def]
    simp only [if_neg other, Bool.and_eq_true]
    exact ⟨first.1, ih first.2⟩

/-- A spelled text holds only allowed characters, percent signs and hex digits. -/
theorem mem_of_spelled (allowed : Char → Bool) (text : List Char)
    (reads : spelled allowed text = true) (c : Char) (member : c ∈ text) :
    allowed c = true ∨ c = '%' ∨ isHex c = true := by
  fun_induction spelled allowed text with
  | case1 => cases member
  | case2 one two tail ih =>
    simp only [Bool.and_eq_true] at reads
    simp only [List.mem_cons] at member
    rcases member with rfl | rfl | rfl | member
    · exact .inr (.inl rfl)
    · exact .inr (.inr reads.1.1)
    · exact .inr (.inr reads.1.2)
    · exact ih reads.2 member
  | case3 => cases reads
  | case4 first tail other ih =>
    rw [Bool.and_eq_true] at reads
    rcases List.mem_cons.mp member with rfl | member
    · exact .inl reads.1
    · exact ih reads.2 member

/-- A text without the character is not cut. -/
theorem cut_absent (c : Char) (text : List Char) (absent : c ∉ text) :
    cutAt c text = (text, none) := by
  have every : ∀ other ∈ text, decide (other ≠ c) = true := by
    intro other member
    exact decide_eq_true fun same => absent (same ▸ member)
  rw [cutAt, List.takeWhile_eq_self_iff.mpr every, List.dropWhile_eq_nil_iff.mpr every]
  rfl

/-- A text is cut at the first of a character. -/
theorem cut_at_cut (c : Char) (front back : List Char) (absent : c ∉ front) :
    cutAt c (front ++ c :: back) = (front, some back) := by
  have every : ∀ other ∈ front, decide (other ≠ c) = true := by
    intro other member
    exact decide_eq_true fun same => absent (same ▸ member)
  rw [cutAt, List.takeWhile_append_of_pos every, List.dropWhile_append_of_pos every,
    List.takeWhile_cons_of_neg (by simp), List.dropWhile_cons_of_neg (by simp), List.append_nil]
  rfl

/-- A path is what may follow a scheme, unless it opens an authority. -/
theorem rest_of_path (path : List Char) (reads : isPath path = true)
    (rooted : ∀ rest, path ≠ '/' :: '/' :: rest) : isRest path = true := by
  have absent : ∀ c : Char, (isPchar c || decide (c = '/')) = false → c ≠ '%' →
      isHex c = false → c ∉ path := by
    intro c disallowed other apart member
    rcases mem_of_spelled _ path reads c member with allowed | same | hex
    · rw [disallowed] at allowed
      cases allowed
    · exact other same
    · rw [apart] at hex
      cases hex
  have fragment := cut_absent '#' path
    (absent '#' (by rfl) (by decide) (by rfl))
  have query := cut_absent '?' path
    (absent '?' (by rfl) (by decide) (by rfl))
  have hier : isHier path = true := by
    unfold isHier
    split
    · rename_i rest
      exact absurd rfl (rooted rest)
    · exact reads
  simp only [isRest, fragment, query, hier, Option.all_none, Bool.and_self]

end Ikigai.Rfc3987
