import Ikigai.Capability
import Ikigai.Hashing
import Ikigai.Representation
import Ikigai.Request

/-!
# What cache identity is taken of

A cache entry is filed under the hash of a request and of a capability's authority, and
a representation is addressed by the hash of its type and body. Here is what each feeds to the
hash, and what two of them have in common when they feed the same bytes. A request and a capability
are told apart in every part. A type is fed as it is written, and two types may be written alike.
-/

namespace Ikigai

open Hashing Framing

/-- The byte a verb is fed as. -/
def Verb.code : Verb → UInt8
  | .source => 1
  | .sink => 2
  | .exists => 3
  | .delete => 4
  | .«meta» => 5

namespace ArgRef

/-- What kind an argument is, and what it holds. -/
def feed : ArgRef → List UInt8
  | .reference name => feedU8 1 ++ feedStr name
  | .inline bytes => feedU8 2 ++ feedBytes bytes
  | .content digest => feedU8 3 ++ feedBytes digest

/-- The bytes fed of an identity can be split off what follows. -/
theorem feed_splits : Splits (2 ^ 64) feed := by
  intro left right after after' below same
  cases left <;> cases right <;>
    simp only [feed, feedU8, List.cons_append, List.nil_append, List.cons.injEq, List.length_cons,
      true_and] at below same
  case reference.reference left right =>
    obtain ⟨names, rest⟩ := feed_str_splits left right after after' (by omega) same
    exact ⟨by rw [names], rest⟩
  case inline.inline left right =>
    obtain ⟨bytes, rest⟩ := feed_bytes_splits left right after after' (by omega) same
    exact ⟨by rw [bytes], rest⟩
  case content.content left right =>
    obtain ⟨digests, rest⟩ := feed_bytes_splits left right after after' (by omega) same
    exact ⟨by rw [digests], rest⟩
  all_goals exact absurd same.1 (by decide)

end ArgRef

namespace Request

/-- A named argument. -/
def feedArg (arg : Text × ArgRef) : List UInt8 := feedStr arg.1 ++ arg.2.feed

/-- What `Request::id` feeds. -/
def idBytes (request : Request) : List UInt8 :=
  feedStr "ikigai.request.v0".toList ++ (feedU8 request.verb.code ++ (feedStr request.target ++
    (toLeBytes request.args.length ++ request.args.flatMap feedArg)))

/-- The bytes fed of an argument can be split off. -/
theorem feed_arg_splits : Splits (2 ^ 64) feedArg :=
  feed_str_splits.pair ArgRef.feed_splits

/-- Something is fed of every argument. -/
theorem feed_arg_writes (arg : Text × ArgRef) : feedArg arg ≠ [] := by
  intro nothing
  exact feed_str_writes arg.1 (List.append_eq_nil_iff.mp nothing).1

/-- All arguments, with their number in front, can be split off. -/
theorem feed_args_splits :
    Splits (2 ^ 64)
      fun args : List (Text × ArgRef) => toLeBytes args.length ++ args.flatMap feedArg :=
  feed_arg_splits.counted to_le_bytes_delimits feed_arg_writes

/-- Two verbs have two codes. -/
theorem verb_code_injective : Function.Injective Verb.code := by
  intro left right same
  cases left <;> cases right <;> first | rfl | exact absurd same (by decide)

/-- Two requests feed the same bytes exactly when they are the same in every part. -/
theorem id_bytes_same_iff (left right : Request) (short : left.idBytes.length < 2 ^ 64) :
    left.idBytes = right.idBytes ↔
      left.verb = right.verb ∧ left.target = right.target ∧ left.args = right.args := by
  constructor
  · intro same
    have rest := List.append_cancel_left same
    have width : (feedU8 left.verb.code ++ (feedStr left.target ++
        (toLeBytes left.args.length ++ left.args.flatMap feedArg))).length < 2 ^ 64 := by
      rw [idBytes, List.length_append] at short
      omega
    have parts := (feed_u8_splits.comap Verb.code verb_code_injective).pair
      (feed_str_splits.pair feed_args_splits)
    have values := parts.eq_of_same (left.verb, left.target, left.args)
      (right.verb, right.target, right.args) width rest
    rw [Prod.mk.injEq, Prod.mk.injEq] at values
    exact values
  · rintro ⟨verbs, targets, args⟩
    rw [idBytes, idBytes, verbs, targets, args]

end Request

namespace Capability

/-- What `capability_key` feeds: root on its own, or every scope in order, without a count. -/
def keyBytes (capability : Capability) : List UInt8 :=
  match capability.scopes with
  | none => feedU8 0
  | some scopes => feedU8 1 ++ scopes.items.flatMap feedStr

/-- Strings that nothing follows need no count. -/
theorem feed_strs_injective (left right : List Text)
    (short : (left.flatMap feedStr).length < 2 ^ 64)
    (same : left.flatMap feedStr = right.flatMap feedStr) : left = right := by
  induction left generalizing right with
  | nil =>
    cases right with
    | nil => rfl
    | cons text rest =>
      rw [List.flatMap_nil, List.flatMap_cons] at same
      exact absurd (List.append_eq_nil_iff.mp same.symm).1 (feed_str_writes text)
  | cons text rest ih =>
    cases right with
    | nil =>
      rw [List.flatMap_nil, List.flatMap_cons] at same
      exact absurd (List.append_eq_nil_iff.mp same).1 (feed_str_writes text)
    | cons other rest' =>
      simp only [List.flatMap_cons] at same short
      obtain ⟨first, further⟩ := feed_str_splits text other _ _ short same
      rw [List.length_append] at short
      rw [first, ih rest' (by omega) further]

/-- Two capabilities feed the same bytes exactly when both are root or both hold the same
scopes. -/
theorem key_bytes_same_iff (left right : Capability) (short : left.keyBytes.length < 2 ^ 64) :
    left.keyBytes = right.keyBytes ↔ left.scopes = right.scopes := by
  constructor
  · intro same
    cases left <;> cases right <;>
      simp only [keyBytes, scopes, feedU8, List.cons_append, List.nil_append, List.cons.injEq,
        List.length_cons, true_and, reduceCtorEq] at same short ⊢
    case root.scoped => exact absurd same.1 (by decide)
    case scoped.root => exact absurd same.1 (by decide)
    case scoped.scoped left right =>
      have items := feed_strs_injective left.items right.items (by omega) same
      rw [ordered_items_injective items]
  · intro same
    rw [keyBytes, keyBytes, same]

end Capability

namespace ReprType

/-- A parameter as it is written. -/
def spelledParam (param : Text × Text) : Text := param.1 ++ '=' :: param.2

/-- The canonical text: the media type, and every parameter in order after a semicolon. -/
def canonical (reprType : ReprType) : Text :=
  reprType.params.foldl (fun text param => text ++ [';'] ++ param.1 ++ ['='] ++ param.2)
    reprType.mediaType

/-- A type is spelled as its media type and then each parameter behind a semicolon. -/
theorem canonical_eq (reprType : ReprType) :
    reprType.canonical =
      reprType.mediaType ++ reprType.params.flatMap fun param => ';' :: spelledParam param := by
  rw [canonical]
  generalize reprType.mediaType = text
  induction reprType.params generalizing text with
  | nil => simp
  | cons param rest ih =>
    rw [List.foldl_cons, ih, List.flatMap_cons, spelledParam]
    simp

/-- What stands between semicolons, in the media type and in every parameter as it is written. -/
def pieces (reprType : ReprType) : List Text :=
  reprType.mediaType.splitOn ';' ++
    reprType.params.flatMap fun param => (spelledParam param).splitOn ';'

/-- Cut at its semicolons a spelled type gives its pieces. -/
theorem canonical_pieces (reprType : ReprType) :
    reprType.canonical.splitOn ';' = reprType.pieces := by
  rw [canonical_eq, pieces]
  generalize reprType.mediaType = text
  induction reprType.params generalizing text with
  | nil => rw [List.flatMap_nil, List.flatMap_nil, List.append_nil, List.append_nil]
  | cons param rest ih =>
    rw [List.flatMap_cons, List.flatMap_cons, List.cons_append, List.splitOn_append_cons_self, ih]

/-- Two types are spelled alike exactly when they have the same pieces. -/
theorem canonical_same_iff (left right : ReprType) :
    left.canonical = right.canonical ↔ left.pieces = right.pieces := by
  rw [← canonical_pieces, ← canonical_pieces]
  constructor
  · intro same
    rw [same]
  · intro same
    have whole : [';'].intercalate (left.canonical.splitOn ';') = left.canonical :=
      List.intercalate_splitOn ';'
    rw [← whole, same, List.intercalate_splitOn]

/-- Two types that differ, and whose pieces are the same: a semicolon or an equals sign inside
one of them stands where the other has one of its own. -/
def Confusable (left right : ReprType) : Prop := left ≠ right ∧ left.pieces = right.pieces

/-- A type whose media type, names and values hold none of what is written between them. -/
structure Plain (reprType : ReprType) : Prop where
  mediaType : ';' ∉ reprType.mediaType
  names : ∀ param ∈ reprType.params, ';' ∉ param.1 ∧ '=' ∉ param.1
  values : ∀ param ∈ reprType.params, ';' ∉ param.2

/-- A type without semicolons in its parts has them as its pieces. -/
theorem Plain.pieces_eq {reprType : ReprType} (plain : reprType.Plain) :
    reprType.pieces = reprType.mediaType :: reprType.params.map spelledParam := by
  have single : ∀ param ∈ reprType.params,
      (spelledParam param).splitOn ';' = [spelledParam param] := by
    intro param member
    refine List.splitOn_eq_singleton ?_
    rw [spelledParam, List.mem_append, List.mem_cons, not_or, not_or]
    exact ⟨(plain.names param member).1, by decide, plain.values param member⟩
  rw [pieces, List.splitOn_eq_singleton plain.mediaType, List.singleton_append,
    List.flatMap_congr single, List.map_eq_flatMap]

/-- Parameters whose names hold no equals sign are read back from their spelling. -/
theorem spelled_params_injective (left right : List (Text × Text))
    (named : ∀ param ∈ left, '=' ∉ param.1) (named' : ∀ param ∈ right, '=' ∉ param.1)
    (same : left.map spelledParam = right.map spelledParam) : left = right := by
  induction left generalizing right with
  | nil => exact (List.map_eq_nil_iff.mp same.symm).symm
  | cons param rest ih =>
    cases right with
    | nil => cases same
    | cons other rest' =>
      rw [List.map_cons, List.map_cons, List.cons.injEq] at same
      have parts := congrArg (Text.splitOnce · '=') same.1
      simp only [spelledParam] at parts
      rw [Text.split_once_append _ _ _ (named param List.mem_cons_self),
        Text.split_once_append _ _ _ (named' other List.mem_cons_self), Prod.mk.injEq,
        Option.some.injEq] at parts
      have tail := ih rest' (fun one member => named one (List.mem_cons_of_mem _ member))
        (fun one member => named' one (List.mem_cons_of_mem _ member)) same.2
      rw [Prod.ext parts.1 parts.2, tail]

/-- Plain types are never written alike. -/
theorem plain_not_confusable (left right : ReprType) (plain : left.Plain) (plain' : right.Plain) :
    ¬Confusable left right := by
  rintro ⟨differ, same⟩
  rw [plain.pieces_eq, plain'.pieces_eq, List.cons.injEq] at same
  obtain ⟨mediaTypes, params⟩ := same
  have same := spelled_params_injective left.params right.params
    (fun param member => (plain.names param member).2)
    (fun param member => (plain'.names param member).2) params
  cases left
  cases right
  exact differ (by simp only at mediaTypes same; rw [mediaTypes, same])

end ReprType

namespace Representation

/-- What `content_id` feeds, of a type and a buffer. -/
def contentBytes (reprType : ReprType) (bytes : List UInt8) : List UInt8 :=
  feedStr "ikigai.repr.v0".toList ++ (feedStr reprType.canonical ++ feedBytes bytes)

/-- Two contents have the same bytes exactly when their types are spelled alike and their bodies
are the same. -/
theorem content_bytes_same_iff (kind kind' : ReprType) (body body' : List UInt8)
    (short : (contentBytes kind body).length < 2 ^ 64) :
    contentBytes kind body = contentBytes kind' body' ↔
      kind.canonical = kind'.canonical ∧ body = body' := by
  constructor
  · intro same
    have rest := List.append_cancel_left same
    have width : (feedStr kind.canonical ++ feedBytes body).length < 2 ^ 64 := by
      rw [contentBytes, List.length_append] at short
      omega
    have values := (feed_str_splits.pair feed_bytes_splits).eq_of_same (kind.canonical, body)
      (kind'.canonical, body') width rest
    exact Prod.mk.injEq .. ▸ values
  · rintro ⟨kinds, bodies⟩
    rw [contentBytes, contentBytes, kinds, bodies]

end Representation

/-- Equal bytes mean the same thing: of two requests, of two capabilities, and of two
representations. -/
structure Separates (left right : Request) (held held' : Capability) (kind kind' : ReprType)
    (body body' : List UInt8) : Prop where
  requests : left.idBytes = right.idBytes ↔
    left.verb = right.verb ∧ left.target = right.target ∧ left.args = right.args
  capabilities : held.keyBytes = held'.keyBytes ↔ held.scopes = held'.scopes
  representations : Representation.contentBytes kind body = Representation.contentBytes kind' body' ↔
    kind.mediaType = kind'.mediaType ∧ kind.params = kind'.params ∧ body = body'

/-- Identity separates what it must exactly when no two types of one body are written alike. -/
theorem identity_separates_iff (left right : Request) (held held' : Capability)
    (kind kind' : ReprType) (body body' : List UInt8) (request : left.idBytes.length < 2 ^ 64)
    (capability : held.keyBytes.length < 2 ^ 64)
    (content : (Representation.contentBytes kind body).length < 2 ^ 64) :
    Separates left right held held' kind kind' body body' ↔
      ¬(kind.Confusable kind' ∧ body = body') := by
  have written := Representation.content_bytes_same_iff kind kind' body body' content
  rw [ReprType.canonical_same_iff] at written
  have parts : kind = kind' ↔ kind.mediaType = kind'.mediaType ∧ kind.params = kind'.params := by
    rw [← ReprType.mk.injEq]
  constructor
  · rintro separates ⟨⟨differ, alike⟩, bodies⟩
    obtain ⟨mediaTypes, params, _⟩ := separates.representations.mp (written.mpr ⟨alike, bodies⟩)
    exact differ (parts.mpr ⟨mediaTypes, params⟩)
  · intro apart
    refine ⟨left.id_bytes_same_iff right request, held.key_bytes_same_iff held' capability, ?_⟩
    rw [written, ← and_assoc, ← parts]
    constructor
    · rintro ⟨alike, bodies⟩
      by_contra other
      exact apart ⟨⟨fun same => other ⟨same, bodies⟩, alike⟩, bodies⟩
    · rintro ⟨rfl, bodies⟩
      exact ⟨rfl, bodies⟩

namespace WrittenAlikeExample

/-- One parameter whose value holds a semicolon. -/
def one : ReprType := ⟨"text/plain".toList, [("a".toList, "b;c=d".toList)]⟩

/-- Two parameters. -/
def two : ReprType := ⟨"text/plain".toList, [("a".toList, "b".toList), ("c".toList, "d".toList)]⟩

def request : Request := .new .source "urn:example:a".toList

/-- A value that holds a semicolon reads as two parameters. -/
theorem two_types_share_an_address :
    ¬∀ (left right : Request) (held held' : Capability) (kind kind' : ReprType)
      (body body' : List UInt8), Separates left right held held' kind kind' body body' := by
  intro separates
  have same : Representation.contentBytes one [] = Representation.contentBytes two [] := by
    decide
  have params := ((separates request request .root .root one two [] []).representations.mp same).2.1
  exact absurd params (by decide)

def utf8 : ReprType := ⟨"text/plain".toList, [("charset".toList, "utf-8".toList)]⟩

def latin1 : ReprType := ⟨"text/plain".toList, [("charset".toList, "latin-1".toList)]⟩

/-- Two character sets are told apart, as all plain types are. -/
theorem charsets_told_apart : Separates request request .root .root utf8 latin1 [65] [65] :=
  (identity_separates_iff _ _ _ _ _ _ _ _ (by decide) (by decide)
    (by decide)).mpr fun alike => ReprType.plain_not_confusable _ _
      ⟨by decide, by decide, by decide⟩
      ⟨by decide, by decide, by decide⟩ alike.1

end WrittenAlikeExample

end Ikigai
