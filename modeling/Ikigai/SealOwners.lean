import Ikigai.Arrangement
import Ikigai.SealTable

/-!
# One owner for a sealed prefix

A level claims prefixes as an object, but claims, door placement and frames compare
the claiming level by name, and registration only asks that an object was shown at
all. Two level objects of one name in one accepted arrangement are therefore both
admitted as the owner, whichever of them declared the seal. An accepted prefix has
one owning object exactly when one object in the arrangement carries its owner's
name.
-/

namespace Ikigai.Seals

namespace Found

mutual

/-- The doors of a walk, each with the innermost level node around it, by serial. -/
def homes (levels : List (Iri × Option Text)) (rootGate : Option Text)
    (around : Option (Option Nat)) : Topology → List (FoundDoor × Option (Option Nat))
  | .node id kind children serial =>
    match kind with
    | .level _ _ =>
      match id with
      | none => []
      | some name => homesAll ((name, some []) :: levels) rootGate (some serial) children
    | .mount head =>
      homesAll (levels.map fun (name, gate) => (name, narrow gate head)) (narrow rootGate head)
        around children
    | .endpointSpace doors =>
      doors.map fun found => (door found.pattern found.kind levels rootGate, around)
    | .limit => []
    | .«alias» rules =>
      (rules.map fun rule => (ruleDoor levels rootGate rule, around)) ++
        homesAll levels rootGate around children
    | .other => homesAll levels rootGate around children

def homesAll (levels : List (Iri × Option Text)) (rootGate : Option Text)
    (around : Option (Option Nat)) : List Topology → List (FoundDoor × Option (Option Nat))
  | [] => []
  | child :: rest =>
    homes levels rootGate around child ++ homesAll levels rootGate around rest

end

mutual

/-- They are the doors the walk collects, in its order. -/
theorem homes_doors (levels : List (Iri × Option Text)) (rootGate : Option Text)
    (around : Option (Option Nat)) (tree : Topology) :
    (homes levels rootGate around tree).map Prod.fst = (walk levels rootGate tree).doors := by
  cases tree with
  | node id kind children serial =>
    cases kind with
    | level seals home =>
      cases id with
      | none => rfl
      | some name =>
        simpa [homes, walk, append] using
          homes_all_doors ((name, some []) :: levels) rootGate (some serial) children
    | mount head => simpa [homes, walk] using homes_all_doors _ _ around children
    | endpointSpace doors => simp [homes, walk, Function.comp_def]
    | limit => rfl
    | «alias» rules =>
      simp [homes, walk, append, Function.comp_def, homes_all_doors levels rootGate around children]
    | other => simpa [homes, walk] using homes_all_doors levels rootGate around children

theorem homes_all_doors (levels : List (Iri × Option Text)) (rootGate : Option Text)
    (around : Option (Option Nat)) (trees : List Topology) :
    (homesAll levels rootGate around trees).map Prod.fst =
      (walkAll levels rootGate trees).doors := by
  cases trees with
  | nil => rfl
  | cons child rest =>
    simp only [homesAll, walkAll, append, List.map_append,
      homes_doors levels rootGate around child, homes_all_doors levels rootGate around rest]

end

/-- The node a walk stands in is the level its innermost frame names. -/
def Within (shown : List FoundLevel) (levels : List (Iri × Option Text))
    (around : Option (Option Nat)) : Prop :=
  match levels, around with
  | [], none => True
  | (name, _) :: _, some serial => ∃ level ∈ shown, level.name = name ∧ level.serial = serial
  | _, _ => False

/-- Narrowing the gates of a walk does not change where it stands. -/
theorem within_narrowed (shown : List FoundLevel) (levels : List (Iri × Option Text))
    (around : Option (Option Nat)) (head : Text) (within : Within shown levels around) :
    Within shown (levels.map fun (name, gate) => (name, narrow gate head)) around := by
  cases levels <;> cases around <;> exact within

mutual

/-- Every door's home is one of the levels the walk collects, or one it stands in. -/
theorem homes_within (shown : List FoundLevel) (levels : List (Iri × Option Text))
    (rootGate : Option Text) (around : Option (Option Nat)) (tree : Topology)
    (collected : ∀ level ∈ (walk levels rootGate tree).levels, level ∈ shown)
    (within : Within shown levels around) :
    ∀ placed ∈ homes levels rootGate around tree, Within shown placed.1.levels placed.2 := by
  cases tree with
  | node id kind children serial =>
    cases kind with
    | level seals home =>
      cases id with
      | none => nofun
      | some name =>
        simp only [walk, append, List.cons_append, List.nil_append] at collected
        refine homes_all_within shown ((name, some []) :: levels) rootGate (some serial) children ?_ ?_
        · exact fun level inside => collected level (List.mem_cons_of_mem _ inside)
        · exact ⟨_, collected _ (List.mem_cons_self ..), rfl, rfl⟩
    | mount head =>
      exact homes_all_within shown _ _ around children collected
        (within_narrowed shown levels around head within)
    | endpointSpace doors =>
      intro placed inside
      obtain ⟨found, _, rfl⟩ := List.mem_map.mp inside
      exact within
    | limit => nofun
    | «alias» rules =>
      intro placed inside
      rcases List.mem_append.mp inside with ruled | below
      · obtain ⟨rule, _, rfl⟩ := List.mem_map.mp ruled
        cases rule with
        | mk kind source => cases kind <;> exact within
      · exact homes_all_within shown levels rootGate around children collected within placed below
    | other => exact homes_all_within shown levels rootGate around children collected within

theorem homes_all_within (shown : List FoundLevel) (levels : List (Iri × Option Text))
    (rootGate : Option Text) (around : Option (Option Nat)) (trees : List Topology)
    (collected : ∀ level ∈ (walkAll levels rootGate trees).levels, level ∈ shown)
    (within : Within shown levels around) :
    ∀ placed ∈ homesAll levels rootGate around trees, Within shown placed.1.levels placed.2 := by
  cases trees with
  | nil => nofun
  | cons child rest =>
    simp only [walkAll, append, List.mem_append] at collected
    intro placed inside
    rcases List.mem_append.mp inside with first | later
    · exact homes_within shown levels rootGate around child
        (fun level found => collected level (Or.inl found)) within placed first
    · exact homes_all_within shown levels rootGate around rest
        (fun level found => collected level (Or.inr found)) within placed later

end

end Found

/-- The levels a topology shows. -/
def shownLevels (tree : Topology) : List FoundLevel := (Found.walk [] (some []) tree).levels

/-- The level objects a topology shows, as the seal table reads them: by name, serial
and declared seals, whatever they enclose. -/
def shownObjects (tree : Topology) : List (LevelCore Unit) :=
  (shownLevels tree).filterMap fun level =>
    level.serial.map fun serial => ⟨level.name, serial, (), level.seals, level.home⟩

/-- The doors a topology shows, each with the serial of the level node it sits in. -/
def shownDoors (tree : Topology) : List (FoundDoor × Option (Option Nat)) :=
  Found.homes [] (some []) none tree

/-- One level object owns a prefix: it is shown, it alone is admitted as a frame and as
a hit's innermost level, and no other object holds a door inside the prefix. -/
structure OwnedAlone (tree : Topology) (seals : Seals) (name : Iri) (sealedHead : Text)
    (serial : Nat) : Prop where
  shown : ∃ level ∈ shownObjects tree, level.name = name ∧ level.serial = serial
  frames : ∀ level ∈ shownObjects tree,
    (seals.frameAdmits (.level name) level = true ↔ level.name = name ∧ level.serial = serial)
  hits : ∀ level ∈ shownObjects tree,
    (seals.accepts (.level name) (some level) = true ↔ level.name = name ∧ level.serial = serial)
  doors : ∀ placed ∈ shownDoors tree, placed.1.inside sealedHead = true →
    ∃ home, placed.2 = some home ∧ ∀ other, home = some other → other = serial

theorem mem_shown_objects (tree : Topology) (name : Iri) (serial : Nat) :
    (∃ level ∈ shownObjects tree, level.name = name ∧ level.serial = serial) ↔
      ∃ level ∈ shownLevels tree, level.name = name ∧ level.serial = some serial := by
  unfold shownObjects
  constructor
  · rintro ⟨object, inside, rfl, rfl⟩
    obtain ⟨level, found, marked⟩ := List.mem_filterMap.mp inside
    obtain ⟨own, numbered, rfl⟩ := Option.map_eq_some_iff.mp marked
    exact ⟨level, found, rfl, numbered⟩
  · rintro ⟨level, found, rfl, numbered⟩
    exact ⟨⟨level.name, serial, (), level.seals, level.home⟩,
      List.mem_filterMap.mpr ⟨level, found, by rw [numbered]; rfl⟩, rfl, rfl⟩

/-- A shown object is admitted for every name it carries: it is registered. -/
theorem shown_object_owner (tree : Topology) (host : List Text) (seals : Seals)
    (accepted : Accepted tree host seals) (name : Iri) (level : LevelCore Unit)
    (shown : level ∈ shownObjects tree) : seals.isOwner name level = true ↔ level.name = name := by
  have registered : seals.registered level.serial = true := by
    obtain ⟨found, inside, _, marked⟩ :=
      (mem_shown_objects tree level.name level.serial).mp ⟨level, shown, rfl, rfl⟩
    exact (accepted.registered level.serial).mpr ⟨found, inside, marked⟩
  simp [isOwner, registered]

/-- In an accepted table, a door inside a level's prefix sits in a level of the
owner's name. -/
theorem door_home (tree : Topology) (host : List Text) (seals : Seals)
    (accepted : Accepted tree host seals) (name : Iri) (sealedHead : Text)
    (claimed : (sealedHead, .level name) ∈ seals.claims)
    (placed : FoundDoor × Option (Option Nat)) (shown : placed ∈ shownDoors tree)
    (inside : placed.1.inside sealedHead = true) :
    ∃ home, placed.2 = some home ∧ ∃ level ∈ shownLevels tree, level.name = name ∧
      level.serial = home := by
  have collected : placed.1 ∈ (Found.walk [] (some []) tree).doors := by
    rw [← Found.homes_doors [] (some []) none tree]
    exact List.mem_map_of_mem shown
  have quiet := accepted.unrefused placed.1 collected _ claimed
  have owned : placed.1.placed (.level name) = true := by
    by_contra elsewhere
    simp [FoundDoor.breach, elsewhere, FoundDoor.refused, inside] at quiet
  have within := Found.homes_within (shownLevels tree) [] (some []) none tree
    (fun _ found => found) True.intro placed shown
  simp only [FoundDoor.placed, FoundDoor.innermost, beq_iff_eq] at owned
  unfold Found.Within at within
  split at within
  · rename_i outside _
    simp [outside] at owned
  · rename_i first _ _ home enclosing around
    obtain ⟨level, found, named, marked⟩ := within
    have same : first = name := by simpa [enclosing] using owned
    exact ⟨home, around, level, found, named.trans same, marked⟩
  · cases within

/-- A claimed prefix has exactly one owning object exactly when exactly one serial is
shown under the owner's name. Every shown object of the name is registered, hence
admitted, so uniqueness among the admitted is uniqueness among the shown; doors inside
the prefix were accepted by name, and so sit in that object. -/
theorem one_owner_iff (tree : Topology) (host : List Text) (seals : Seals)
    (built : fromTopology tree host = .ok seals) (name : Iri) (sealedHead : Text)
    (claimed : (sealedHead, .level name) ∈ seals.claims) :
    (∃ serial, OwnedAlone tree seals name sealedHead serial) ↔
      ∃! serial, ∃ level ∈ shownLevels tree, level.name = name ∧ level.serial = some serial := by
  have accepted := from_topology_accepted tree host seals built
  constructor
  · rintro ⟨serial, owned⟩
    refine ⟨serial, (mem_shown_objects tree name serial).mp owned.shown, ?_⟩
    intro other shown
    obtain ⟨level, inside, named, rfl⟩ := (mem_shown_objects tree name other).mpr shown
    have admitted : seals.frameAdmits (.level name) level = true :=
      (shown_object_owner tree host seals accepted name level inside).mpr named
    exact ((owned.frames level inside).mp admitted).2
  · rintro ⟨serial, shown, unique⟩
    have alone (level : LevelCore Unit) (inside : level ∈ shownObjects tree) :
        seals.isOwner name level = true ↔ level.name = name ∧ level.serial = serial := by
      rw [shown_object_owner tree host seals accepted name level inside]
      constructor
      · intro named
        exact ⟨named, unique level.serial
          ((mem_shown_objects tree name level.serial).mp ⟨level, inside, named, rfl⟩)⟩
      · exact And.left
    refine ⟨serial, (mem_shown_objects tree name serial).mpr shown, alone, ?_, ?_⟩
    · intro level inside
      rw [← alone level inside]
      rfl
    · intro placed found inside
      obtain ⟨home, around, level, shownLevel, named, marked⟩ :=
        door_home tree host seals accepted name sealedHead claimed placed found inside
      refine ⟨home, around, ?_⟩
      rintro other rfl
      exact unique other ⟨level, shownLevel, named, marked⟩

/-!
A module's level seals `urn:n:`. Another level object of the same name, which declares
no seal, stands ahead of it and binds a door of the family.
-/

namespace NamesakeExample

local instance anyDigest : Blake3 := ⟨fun bytes => bytes.length.toUInt64⟩

local instance anyIri : IriSyntax := ⟨fun _ => true, fun _ => []⟩

def levelName : Iri := "urn:level:n".toList

def door : Iri := "urn:n:x".toList

def leaf (object : Nat) : Arrangement Empty :=
  .endpointSpace [(.exact door, .bound object false)] none

def owner : Arrangement Empty :=
  .mount "urn:n:".toList (.level levelName 1 (leaf 1) ["urn:n:".toList] none) none

def namesake : Arrangement Empty :=
  .mount "urn:n:".toList (.level levelName 2 (leaf 2) [] none) none

def root : Arrangement Empty := .fallback [namesake, owner] none

def table : Seals :=
  ⟨coreClaims ++ [("urn:n:".toList, .level levelName)], [(levelName, 2), (levelName, 1)], false⟩

theorem built : fromTopology (Space.topology root) [] = .ok table := rfl

/-- The namesake answers the owner's name in an accepted arrangement. -/
example :
    (Scope.empty.resolveIn (Request.new .source door) root table) =
      .ok (.hit ⟨.bound 2 false, [], none, some levelName,
        [⟨levelName, 2, leaf 2, [], none⟩]⟩) := rfl

/-- An accepted prefix claimed by a level need not have one owning object. -/
theorem namesakes_both_own :
    ¬ ∀ (tree : Topology) (host : List Text) (seals : Seals) (name : Iri) (sealedHead : Text),
      fromTopology tree host = .ok seals → (sealedHead, .level name) ∈ seals.claims →
        ∃ serial, OwnedAlone tree seals name sealedHead serial := by
  intro claimed
  obtain ⟨serial, owned⟩ := claimed (Space.topology root) [] table levelName "urn:n:".toList built
    (by simp [table])
  have first : (⟨levelName, 2, (), [], some "urn:n:".toList⟩ : LevelCore Unit) ∈
      shownObjects (Space.topology root) := List.mem_cons_self ..
  have second : (⟨levelName, 1, (), ["urn:n:".toList], some "urn:n:".toList⟩ : LevelCore Unit) ∈
      shownObjects (Space.topology root) := List.mem_cons_of_mem _ (List.mem_cons_self ..)
  have one := ((owned.frames _ first).mp rfl).2
  have two := ((owned.frames _ second).mp rfl).2
  cases one.trans two.symm

/-- The condition on the arrangement at hand. -/
theorem namesakes_one_owner_iff :
    (∃ serial, OwnedAlone (Space.topology root) table levelName "urn:n:".toList serial) ↔
      ∃! serial, ∃ level ∈ shownLevels (Space.topology root),
        level.name = levelName ∧ level.serial = some serial :=
  one_owner_iff (Space.topology root) [] table built levelName "urn:n:".toList (by simp [table])

end NamesakeExample

end Ikigai.Seals
