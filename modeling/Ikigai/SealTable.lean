import Ikigai.Fallible
import Ikigai.Seals

/-!
# What an accepted seal table guarantees

A table built from a topology passed every check on the way: each level's seals lie
in that level's namespace, claims of different owners share no name, no door earned
a refusal, and the registered serials are those of the levels the topology showed.
Later proofs use the record of these checks and never look at the build again.
-/

namespace Ikigai.Seals

/-- A level claim was declared by a found level inside its namespace. -/
def DeclaredBy (levels : List FoundLevel) (claim : Claim) : Prop :=
  ∃ level ∈ levels, claim.2 = .level level.name ∧ claim.1 ∈ level.seals ∧
    ∃ home, level.home = some home ∧ home ≠ [] ∧ home <+: claim.1

/-- What `fromTopology` checked when it accepted. -/
structure Accepted (tree : Topology) (host : List Text) (seals : Seals) : Prop where
  claims : ∃ declared, seals.claims = coreClaims ++ (host.map fun head => (head, .host)) ++ declared ∧
    ∀ claim ∈ declared, DeclaredBy (Found.walk [] (some []) tree).levels claim
  declared : ∀ level ∈ (Found.walk [] (some []) tree).levels, ∀ head ∈ level.seals,
    (head, .level level.name) ∈ seals.claims
  apart : ∀ claim ∈ seals.claims, ∀ other ∈ seals.claims, claim.2 ≠ other.2 →
    touches claim.1 other.1 = false
  unrefused : ∀ door ∈ (Found.walk [] (some []) tree).doors, ∀ claim ∈ seals.claims,
    door.breach claim = none
  registered : ∀ serial, seals.registered serial = true ↔
    ∃ level ∈ (Found.walk [] (some []) tree).levels, level.serial = some serial
  trivial : seals.trivial = true → seals.claims = coreClaims

/-- What recording claims keeps: nothing is lost, and what is added was declared. -/
structure Grows (levels : List FoundLevel) (before after : List Claim) : Prop where
  extends_ : ∃ added, after = before ++ added ∧ ∀ claim ∈ added, DeclaredBy levels claim

theorem Grows.refl (levels : List FoundLevel) (claims : List Claim) : Grows levels claims claims :=
  ⟨[], (List.append_nil claims).symm, fun _ inside => nomatch inside⟩

theorem Grows.trans (levels : List FoundLevel) (first second third : List Claim)
    (one : Grows levels first second) (two : Grows levels second third) :
    Grows levels first third := by
  obtain ⟨added, rfl, declared⟩ := one
  obtain ⟨added', rfl, declared'⟩ := two
  refine ⟨added ++ added', List.append_assoc .., ?_⟩
  intro claim inside
  exact (List.mem_append.mp inside).elim (declared claim) (declared' claim)

theorem Grows.keeps (levels : List FoundLevel) (before after : List Claim)
    (grown : Grows levels before after) (claim : Claim) (inside : claim ∈ before) :
    claim ∈ after := by
  obtain ⟨added, rfl, _⟩ := grown
  exact List.mem_append_left _ inside

/-- Recording one seal adds at most its claim, and leaves it recorded. -/
theorem claim_seal_ok (levels : List FoundLevel) (level : FoundLevel) (found : level ∈ levels)
    (claims after : List Claim) (head : Text) (declared : head ∈ level.seals)
    (recorded : claimSeal level claims head = .ok after) :
    Grows levels claims after ∧ (head, .level level.name) ∈ after := by
  unfold claimSeal at recorded
  cases named : level.home with
  | none => simp [named] at recorded
  | some home =>
    simp only [named] at recorded
    split at recorded
    · rename_i within
      simp only [Bool.and_eq_true, Bool.not_eq_eq_eq_not, Bool.not_true, Text.starts_with_iff]
        at within
      have inHome : DeclaredBy levels (head, .level level.name) := by
        refine ⟨level, found, rfl, declared, home, named, ?_, within.2⟩
        rintro rfl
        simp at within
      cases recorded
      split
      · rename_i present
        exact ⟨Grows.refl levels claims, present⟩
      · refine ⟨⟨[(head, .level level.name)], rfl, ?_⟩, by simp⟩
        intro claim inside
        rw [List.mem_singleton.mp inside]
        exact inHome
    · cases recorded

/-- Recording the seals of one level, head by head. -/
theorem claim_level_ok (levels : List FoundLevel) (level : FoundLevel) (found : level ∈ levels)
    (heads : List Text) (declared : ∀ head ∈ heads, head ∈ level.seals)
    (claims after : List Claim) (recorded : heads.foldlM (claimSeal level) claims = .ok after) :
    Grows levels claims after ∧ ∀ head ∈ heads, (head, .level level.name) ∈ after := by
  induction heads generalizing claims with
  | nil =>
    cases recorded
    exact ⟨Grows.refl levels _, fun _ inside => nomatch inside⟩
  | cons head rest ih =>
    obtain ⟨middle, step, further⟩ := Except.of_fold_cons recorded
    obtain ⟨grown, present⟩ := claim_seal_ok levels level found claims middle head
      (declared head (List.mem_cons_self ..)) step
    obtain ⟨grown', present'⟩ := ih (fun other inside =>
      declared other (List.mem_cons_of_mem _ inside)) middle further
    refine ⟨grown.trans levels claims middle after grown', ?_⟩
    intro other inside
    rcases List.mem_cons.mp inside with rfl | inside
    · exact grown'.keeps levels middle after _ present
    · exact present' other inside

/-- Recording everything the found levels declare. -/
theorem claim_all_ok (levels found : List FoundLevel) (among : ∀ level ∈ found, level ∈ levels)
    (claims after : List Claim) (recorded : claimAll found claims = .ok after) :
    Grows levels claims after ∧
      ∀ level ∈ found, ∀ head ∈ level.seals, (head, .level level.name) ∈ after := by
  unfold claimAll at recorded
  induction found generalizing claims with
  | nil =>
    cases recorded
    exact ⟨Grows.refl levels _, fun _ inside => nomatch inside⟩
  | cons level rest ih =>
    obtain ⟨middle, step, further⟩ := Except.of_fold_cons recorded
    obtain ⟨grown, present⟩ := claim_level_ok levels level (among level (List.mem_cons_self ..))
      level.seals (fun _ inside => inside) claims middle step
    obtain ⟨grown', present'⟩ := ih (fun other inside =>
      among other (List.mem_cons_of_mem _ inside)) middle further
    refine ⟨grown.trans levels claims middle after grown', ?_⟩
    intro other inside head declared
    rcases List.mem_cons.mp inside with rfl | inside
    · exact grown'.keeps levels middle after _ (present head declared)
    · exact present' other inside head declared

theorem touches_iff (left right : Text) :
    touches left right = true ↔ right <+: left ∨ left <+: right := by
  simp [touches]

theorem touches_comm (left right : Text) : touches left right = touches right left :=
  Bool.or_comm _ _

/-- Claims of different owners share no name. -/
def Apart (claim other : Claim) : Prop := claim.2 ≠ other.2 → touches claim.1 other.1 = false

/-- With no overlap found, every later claim is apart from every earlier one. -/
theorem no_overlap (earlier claims : List Claim) (apart : earlier.Pairwise Apart)
    (clear : firstOverlap earlier claims = none) : (earlier ++ claims).Pairwise Apart := by
  induction claims generalizing earlier with
  | nil => simpa using apart
  | cons first rest ih =>
    unfold firstOverlap at clear
    split at clear
    · cases clear
    · rename_i unshared
      have joined : (earlier ++ [first]).Pairwise Apart := by
        rw [List.pairwise_append]
        refine ⟨apart, List.pairwise_singleton _ _, ?_⟩
        intro older inside newer same
        rw [List.mem_singleton.mp same]
        intro differ
        have skipped := List.find?_eq_none.mp unshared older inside
        rw [touches_comm]
        simpa [differ] using skipped
      simpa using ih (earlier ++ [first]) joined clear

instance : Std.Symm Apart where
  symm _ _ apart differ := by
    rw [touches_comm]
    exact apart differ.symm

theorem register_level_any (levels : List (Iri × Nat)) (level : FoundLevel) (serial : Nat) :
    (registerLevel levels level).any (fun entry => entry.2 == serial) = true ↔
      levels.any (fun entry => entry.2 == serial) = true ∨ level.serial = some serial := by
  unfold registerLevel
  cases level.serial with
  | none => simp
  | some own =>
    simp only [Option.some.injEq]
    split
    · rename_i present
      constructor
      · exact Or.inl
      · rintro (listed | rfl)
        · exact listed
        · exact present
    · simp

/-- The serials registered are exactly the found levels'. -/
theorem registered_iff (found : List FoundLevel) (serial : Nat) (entries : List (Iri × Nat)) :
    (found.foldl registerLevel entries).any (fun entry => entry.2 == serial) = true ↔
      entries.any (fun entry => entry.2 == serial) = true ∨
        ∃ level ∈ found, level.serial = some serial := by
  induction found generalizing entries with
  | nil => simp
  | cons level rest ih =>
    rw [List.foldl_cons, ih, register_level_any]
    simp [or_assoc]

/-- Every check of an accepted build. -/
theorem from_topology_accepted (tree : Topology) (host : List Text) (seals : Seals)
    (built : fromTopology tree host = .ok seals) : Accepted tree host seals := by
  unfold fromTopology at built
  obtain ⟨claims, recorded, built⟩ := Except.of_bind built
  split at built
  · cases built
  · rename_i clear
    split at built
    · cases built
    · rename_i quiet
      cases built
      obtain ⟨⟨added, rfl, declared⟩, present⟩ :=
        claim_all_ok _ _ (fun _ inside => inside) _ _ recorded
      have pairwise := no_overlap [] _ List.Pairwise.nil clear
      refine ⟨⟨added, rfl, declared⟩, present, ?_, ?_, ?_, ?_⟩
      · exact fun claim inside other inside' => List.Pairwise.forall_of_forall
          (fun _ _ differ => absurd rfl differ) pairwise inside inside'
      · intro door inside claim claimed
        have silent := List.findSome?_eq_none_iff.mp quiet door inside
        exact List.findSome?_eq_none_iff.mp silent claim claimed
      · intro serial
        have listed := registered_iff (Found.walk [] (some []) tree).levels serial []
        simpa only [registered, register, List.any_nil, Bool.false_eq_true, false_or] using listed
      · intro bare
        have width := of_decide_eq_true bare
        have coreWidth : coreClaims.length = coreSeals.length := by simp [coreClaims]
        have noMore : (host.map fun head => ((head, SealOwner.host) : Claim)) ++ added = [] := by
          apply List.eq_nil_of_length_eq_zero
          simp only [List.length_append] at width ⊢
          omega
        rw [List.append_assoc, noMore, List.append_nil]

/-- The owner of a name is the owner of every claim the name falls under. -/
theorem owner_of_claim (tree : Topology) (host : List Text) (seals : Seals)
    (accepted : Accepted tree host seals) (name : Text) (claim : Claim)
    (claimed : claim ∈ seals.claims) (under : claim.1 <+: name) :
    seals.ownerOf name = some claim.2 := by
  unfold ownerOf
  cases found : seals.claims.find? fun claim => name.startsWith claim.1 with
  | none =>
    have outside := List.find?_eq_none.mp found claim claimed
    exact absurd ((Text.starts_with_iff name claim.1).mpr under) outside
  | some other =>
    have listed : other ∈ seals.claims := List.mem_of_find?_eq_some found
    have covers : other.1 <+: name :=
      (Text.starts_with_iff name other.1).mp
        (List.find?_some (p := fun claim : Claim => name.startsWith claim.1) found)
    rw [Option.map_some]
    by_contra differ
    have owners : claim.2 ≠ other.2 := fun same => differ (congrArg some same.symm)
    have apart := accepted.apart claim claimed other listed owners
    have shared : touches claim.1 other.1 = true :=
      (touches_iff _ _).mpr (List.prefix_or_prefix_of_prefix covers under)
    rw [apart] at shared
    cases shared

/-- A claimed owner has a claim the name falls under. -/
theorem claim_of_owner (seals : Seals) (name : Text) (owner : SealOwner)
    (owned : seals.ownerOf name = some owner) :
    ∃ claim ∈ seals.claims, claim.2 = owner ∧ claim.1 <+: name := by
  unfold ownerOf at owned
  obtain ⟨claim, found, rfl⟩ := Option.map_eq_some_iff.mp owned
  refine ⟨claim, List.mem_of_find?_eq_some found, rfl, ?_⟩
  exact (Text.starts_with_iff name claim.1).mp
    (List.find?_some (p := fun claim : Claim => name.startsWith claim.1) found)

end Ikigai.Seals
