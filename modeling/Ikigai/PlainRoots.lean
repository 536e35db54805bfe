import Ikigai.Arrangement
import Ikigai.SealTable

/-!
# What a plain arrangement's topology shows

A plain arrangement is made of this crate's own spaces, its aliases resolving in their
child. Its topology shows every door a request comes to. The name asked for goes past
every gate on the route to the door it is found at, or to the alias that rewrites it. The
name it is rewritten to is found at a door that can answer it, inside the levels of the
hit, but the gates above the alias were never asked about it. Levels are shown at the
place they are found, so a path of levels reached by descending is a path of the tree.
-/

namespace Ikigai

namespace Seals

/-- A gate lets a name through. -/
def Passes (gate : Option Text) (name : Text) : Prop := ∃ head ∈ gate, head <+: name

/-- An open gate lets every name through. -/
theorem open_passes (name : Text) : Passes (some []) name := ⟨[], rfl, List.nil_prefix⟩

/-- A mount that admits a name narrows no gate against it. -/
theorem narrow_passes (gate : Option Text) (head name : Text) (passes : Passes gate name)
    (admits : head <+: name) : Passes (narrow gate head) name := by
  obtain ⟨own, rfl, opens⟩ := passes
  simp only [narrow, Text.starts_with_iff]
  by_cases longer : own <+: head
  · rw [if_pos longer]
    exact ⟨head, rfl, admits⟩
  · have shorter : head <+: own :=
      (List.prefix_or_prefix_of_prefix opens admits).resolve_left longer
    rw [if_neg longer, if_pos shorter]
    exact ⟨own, rfl, opens⟩

/-- A gate that lets a name through reaches every prefix the name is under. -/
theorem passes_reaches (gate : Option Text) (name sealedHead : Text) (passes : Passes gate name)
    (under : sealedHead <+: name) : FoundDoor.reaches gate sealedHead = true := by
  obtain ⟨head, rfl, opens⟩ := passes
  exact (touches_iff head sealedHead).mpr (List.prefix_or_prefix_of_prefix under opens)

/-- One entry of a route further down: the same level, its gate still open to a name it
was open to. -/
structure Narrowed (name : Text) (before after : Iri × Option Text) : Prop where
  level : after.1 = before.1
  gate : Passes before.2 name → Passes after.2 name

/-- A path is no narrower than itself. -/
theorem narrowed_refl (name : Text) (levels : List (Iri × Option Text)) :
    List.Forall₂ (Narrowed name) levels levels :=
  List.forall₂_same.mpr fun _ _ => ⟨rfl, fun passes => passes⟩

/-- A path narrower than a narrower one is narrower. -/
theorem narrowed_trans (name : Text) (first second third : List (Iri × Option Text))
    (one : List.Forall₂ (Narrowed name) first second)
    (two : List.Forall₂ (Narrowed name) second third) :
    List.Forall₂ (Narrowed name) first third := by
  induction one generalizing third with
  | nil => exact two
  | cons here _ ih =>
    cases two with
    | cons there rest =>
      exact List.Forall₂.cons ⟨there.level.trans here.level, fun passes =>
        there.gate (here.gate passes)⟩ (ih _ rest)

/-- A mount narrows the gates of every level to its head, which the names it admits begin with. -/
theorem mount_narrows (name head : Text) (levels : List (Iri × Option Text))
    (admits : head <+: name) : List.Forall₂ (Narrowed name) levels
      (levels.map fun (level, gate) => (level, narrow gate head)) := by
  induction levels with
  | nil => exact List.Forall₂.nil
  | cons entry rest ih =>
    exact List.Forall₂.cons ⟨rfl, fun passes => narrow_passes entry.2 head name passes admits⟩ ih

/-- A route names its levels throughout. -/
theorem narrowed_names (name : Text) (before after : List (Iri × Option Text))
    (narrowed : List.Forall₂ (Narrowed name) before after) :
    after.map Prod.fst = before.map Prod.fst := by
  induction narrowed with
  | nil => rfl
  | cons same _ ih => rw [List.map_cons, List.map_cons, same.level, ih]

/-- What enters a route stays on it, narrowed. -/
theorem narrowed_entry (name : Text) (before after : List (Iri × Option Text))
    (narrowed : List.Forall₂ (Narrowed name) before after) (entry : Iri × Option Text)
    (inside : entry ∈ before) : ∃ entry' ∈ after, Narrowed name entry entry' := by
  induction narrowed with
  | nil => cases inside
  | cons same _ ih =>
    rcases List.mem_cons.mp inside with rfl | inside
    · exact ⟨_, List.mem_cons_self .., same⟩
    · obtain ⟨entry', inside', here⟩ := ih inside
      exact ⟨entry', List.mem_cons_of_mem _ inside', here⟩

/-- The route into a path of levels before any mount narrowed it. -/
def openRoute {σ : Type} (path : LevelPath σ) : List (Iri × Option Text) :=
  path.map fun level => (level.name, some [])

/-- A door for a hit: it can answer the name, sits in the levels of the hit inside the
levels the walk came through, and no gate shut the name out. -/
structure FoundDoor.Serves {σ : Type} (door : FoundDoor) (name : Text) (path : LevelPath σ)
    (levels : List (Iri × Option Text)) (rootGate : Option Text) : Prop where
  matched : ∀ sealedHead, sealedHead <+: name → door.mayMatch sealedHead = true
  route : List.Forall₂ (Narrowed name) (openRoute path ++ levels) door.levels
  root : Passes rootGate name → Passes door.rootGate name

/-- The doors of a hit. Its target came to one that serves it: the door of the hit, or a rule
of the alias that rewrote it, inside the outer levels of the hit. And the name reported
was found at one that can answer it, inside all of them. -/
structure TracedBy {σ : Type} (doors : List FoundDoor) (target : Iri) (hit : Resolved σ)
    (levels : List (Iri × Option Text)) (rootGate : Option Text) : Prop where
  entered : ∃ door ∈ doors, ∃ deeper outward, hit.levels = deeper ++ outward ∧
    (hit.canonical = none → deeper = []) ∧ door.Serves target outward levels rootGate
  landed : ∃ door ∈ doors,
    (∀ sealedHead, sealedHead <+: hit.canonical.getD target → door.mayMatch sealedHead = true) ∧
    door.levels.map Prod.fst = hit.levels.map LevelCore.name ++ levels.map Prod.fst

namespace TracedBy

variable {σ : Type} {doors : List FoundDoor} {target : Iri} {hit : Resolved σ}
  {levels : List (Iri × Option Text)} {rootGate : Option Text}

/-- A route of open gates names its levels. -/
theorem open_route_names (path : LevelPath σ) :
    (openRoute path).map Prod.fst = path.map LevelCore.name := by
  simp [openRoute, Function.comp_def]

/-- A hit that reports no rewrite is traced by the one door it was found at. -/
theorem of_serves (door : FoundDoor) (shown : door ∈ doors) (unmoved : hit.canonical = none)
    (serves : door.Serves target hit.levels levels rootGate) :
    TracedBy doors target hit levels rootGate := by
  refine ⟨⟨door, shown, [], hit.levels, rfl, fun _ => rfl, serves⟩, door, shown, ?_, ?_⟩
  · rw [unmoved]
    exact serves.matched
  · rw [narrowed_names _ _ _ serves.route, List.map_append, open_route_names]

/-- More doors trace a hit as well, and the answerer it reports is no part of it. -/
theorem shown_by {more : List FoundDoor} {filled : Resolved σ}
    (traced : TracedBy doors target hit levels rootGate) (shown : doors ⊆ more)
    (canonical : hit.canonical = filled.canonical) (path : hit.levels = filled.levels) :
    TracedBy more target filled levels rootGate := by
  obtain ⟨⟨door, inside, deeper, outward, parts, bare, serves⟩, door', inside', answers, named⟩ :=
    traced
  rw [canonical] at bare answers
  rw [path] at parts named
  exact ⟨⟨door, shown inside, deeper, outward, parts, bare, serves⟩, door', shown inside', answers,
    named⟩

end TracedBy

/-- A door whose pattern is all head answers its own name. -/
theorem exact_matches (name : Text) (levels : List (Iri × Option Text)) (rootGate : Option Text)
    (sealedHead : Text) (under : sealedHead <+: name) :
    (Found.door name .exact levels rootGate).mayMatch sealedHead = true := by
  simpa [Found.door, FoundDoor.mayMatch, FoundDoor.head] using under

/-- A door for a family answers every name that its text opens. -/
theorem headed_matches (text name : Text) (levels : List (Iri × Option Text))
    (rootGate : Option Text) (opens : text <+: name) (sealedHead : Text)
    (under : sealedHead <+: name) :
    (Found.door text .headed levels rootGate).mayMatch sealedHead = true :=
  (touches_iff text sealedHead).mpr (List.prefix_or_prefix_of_prefix under opens)

/-- Whether a template may answer a sealed name is told from the literal in front of it, or from
the whole text where it has no variable. -/
theorem FoundDoor.template_may_match (door : FoundDoor) (expanding : door.kind = .template)
    (sealedHead : Text) : door.mayMatch sealedHead =
      if door.head.length < door.text.length then touches door.head sealedHead
      else door.text.startsWith sealedHead := by
  simp [mayMatch, expanding]

/-- A template's door can answer what the template matches. -/
theorem template_matches (template : UriTemplate) (name : Iri) (bindings : List (Text × Text))
    (matched : template.matchIri name = some bindings) (levels : List (Iri × Option Text))
    (rootGate : Option Text) (sealedHead : Text) (under : sealedHead <+: name) :
    (Found.door template.source .template levels rootGate).mayMatch sealedHead = true := by
  obtain ⟨opens, whole⟩ := template.match_iri_opens name bindings matched
  rw [FoundDoor.template_may_match _ rfl]
  split
  · exact (touches_iff _ sealedHead).mpr (List.prefix_or_prefix_of_prefix under opens)
  · rename_i unexpanded
    have all : template.source.takeWhile (· ≠ '{') = template.source :=
      (List.takeWhile_prefix _).eq_of_length_le (Nat.le_of_not_lt unexpanded)
    have plain : '{' ∉ template.source := by
      intro inside
      simpa using List.takeWhile_eq_self_iff.mp all '{' inside
    rw [whole plain] at under
    exact (Text.starts_with_iff template.source sealedHead).mpr under

/-- A grammar that matches a name is a door that may answer what the name is under. -/
theorem grammar_matches (grammar : Grammar) (name : Iri) (bindings : List (Text × Text))
    (matched : grammar.matchIri name = some bindings) (levels : List (Iri × Option Text))
    (rootGate : Option Text) (sealedHead : Text) (under : sealedHead <+: name) :
    (Found.door grammar.pattern grammar.matchKind levels rootGate).mayMatch sealedHead = true := by
  cases grammar with
  | exact bound =>
    have same : name = bound := by
      by_contra other
      simp [Grammar.matchIri, other] at matched
    subst same
    exact exact_matches name levels rootGate sealedHead under
  | template pattern =>
    exact template_matches pattern name bindings matched levels rootGate sealedHead under

/-- A child rule that applies to a name is a door that may. -/
theorem rule_matches [IriSyntax] (rule : AliasRule) (child : rule.resolveAt = .child)
    (name next : Text) (applied : rule.apply name = some next)
    (levels : List (Iri × Option Text)) (rootGate : Option Text) (sealedHead : Text)
    (under : sealedHead <+: name) :
    (Found.ruleDoor levels rootGate (Arrangement.summary rule)).mayMatch sealedHead = true := by
  have plain := rule.child_is_plain child
  cases kind : rule.kind with
  | exact =>
    have same : name = rule.source := by
      by_contra other
      simp [AliasRule.apply, AliasRule.applyCapturing, plain, kind, other] at applied
    rw [same] at under
    simpa [Found.ruleDoor, Arrangement.summary, kind] using
      exact_matches rule.source levels rootGate sealedHead under
  | headed =>
    simp only [AliasRule.apply, AliasRule.applyCapturing, plain, kind,
      Option.map_eq_some_iff] at applied
    obtain ⟨_, ⟨rest, stripped, _⟩, _⟩ := applied
    have opens : rule.source <+: name :=
      ⟨rest, ((Text.strip_prefix_eq_some name rule.source rest).mp stripped).symm⟩
    simpa [Found.ruleDoor, Arrangement.summary, kind] using
      headed_matches rule.source name levels rootGate opens sealedHead under

namespace Found

/-- Walking one tree is walking it. -/
theorem walk_all_one (levels : List (Iri × Option Text)) (rootGate : Option Text)
    (tree : Topology) : walkAll levels rootGate [tree] = walk levels rootGate tree := by
  simp [walkAll, append, nothing]

/-- One walk collects no more than another. -/
structure Among (part whole : Found) : Prop where
  levels : part.levels ⊆ whole.levels
  doors : part.doors ⊆ whole.doors

/-- What is found is among itself. -/
theorem Among.refl (found : Found) : Among found found :=
  ⟨List.Subset.refl _, List.Subset.refl _⟩

/-- And among what it is among is among. -/
theorem Among.trans (part middle whole : Found) (one : Among part middle)
    (two : Among middle whole) : Among part whole :=
  ⟨List.Subset.trans one.levels two.levels, List.Subset.trans one.doors two.doors⟩

/-- What is found on the left is among what is found on both sides. -/
theorem among_left (left right : Found) : Among left (append left right) :=
  ⟨List.subset_append_left _ _, List.subset_append_left _ _⟩

/-- What is found on the right is among what is found on both sides. -/
theorem among_right (left right : Found) : Among right (append left right) :=
  ⟨List.subset_append_right _ _, List.subset_append_right _ _⟩

/-- What a child shows, its siblings' walk shows. -/
theorem walk_all_child (levels : List (Iri × Option Text)) (rootGate : Option Text)
    (children : List Topology) (child : Topology) (inside : child ∈ children) :
    Among (walk levels rootGate child) (walkAll levels rootGate children) := by
  induction children with
  | nil => cases inside
  | cons first rest ih =>
    rw [walkAll]
    rcases List.mem_cons.mp inside with rfl | inside
    · exact among_left _ _
    · exact (ih inside).trans _ _ _ (among_right _ _)

end Found

end Seals

/-- A table leaves a name as it is unless one of its rules matches it. -/
theorem AliasTable.rewrites_matched [IriSyntax] (table : AliasTable) (target : Iri)
    (moved : table.canonicalize target ≠ .direct) :
    ∃ rule ∈ table.rules, ∃ next, rule.apply target = some next := by
  obtain ⟨hops, bound⟩ := Nat.exists_eq_succ_of_ne_zero (Nat.ne_of_gt table.positive)
  simp only [canonicalize, bound] at moved
  split at moved
  · exact absurd rfl moved
  · cases first : table.step target with
    | none => simp [walkFrom, first] at moved
    | some applied =>
      obtain ⟨entry, inside, matched⟩ := List.exists_of_findSome?_eq_some first
      obtain ⟨next, applies, _⟩ := Option.map_eq_some_iff.mp matched
      exact ⟨entry.1, List.fst_mem_of_mem_zipIdx inside, next, applies⟩

namespace Arrangement

variable {κ : Type}

/-- Made of this crate's spaces alone, with aliases that resolve in their child. -/
inductive Plain : Arrangement κ → Prop where
  | endpointSpace (bindings : List (Grammar × Endpoint)) (id : Option Iri) :
      Plain (.endpointSpace bindings id)
  | mount (head : Text) (inner : Arrangement κ) (id : Option Iri) (plain : Plain inner) :
      Plain (.mount head inner id)
  | fallback (spaces : List (Arrangement κ)) (id : Option Iri)
      (plain : ∀ space ∈ spaces, Plain space) : Plain (.fallback spaces id)
  | limit (family : Family) (id : Option Iri) : Plain (.limit family id)
  | level (name : Iri) (serial : Nat) (inner : Arrangement κ) (seals : List Text)
      (home : Option Text) (plain : Plain inner) : Plain (.level name serial inner seals home)
  | «alias» (table : AliasTable) (inner : Arrangement κ) (id : Option Iri)
      (children : ∀ rule ∈ table.rules, rule.resolveAt = .child) (plain : Plain inner) :
      Plain (.«alias» table inner id)

/-- A space stands in an arrangement inside a path of levels, innermost first. -/
inductive Within (root : Arrangement κ) : LevelPath (Arrangement κ) → Arrangement κ → Prop where
  | root : Within root [] root
  | mount (path : LevelPath (Arrangement κ)) (head : Text) (inner : Arrangement κ)
      (id : Option Iri) (outer : Within root path (.mount head inner id)) : Within root path inner
  | fallback (path : LevelPath (Arrangement κ)) (spaces : List (Arrangement κ)) (id : Option Iri)
      (space : Arrangement κ) (inside : space ∈ spaces)
      (outer : Within root path (.fallback spaces id)) : Within root path space
  | level (path : LevelPath (Arrangement κ)) (level : LevelCore (Arrangement κ))
      (outer : Within root path
        (.level level.name level.serial level.inner level.seals level.home)) :
      Within root (level :: path) level.inner
  | «alias» (path : LevelPath (Arrangement κ)) (table : AliasTable) (inner : Arrangement κ)
      (id : Option Iri) (outer : Within root path (.«alias» table inner id)) :
      Within root path inner

/-- A level stack reached by descending into an arrangement: each level stands in it
inside the levels outward of it. -/
inductive StackOf (root : Arrangement κ) : LevelPath (Arrangement κ) → Prop where
  | nil : StackOf root []
  | cons (level : LevelCore (Arrangement κ)) (outward : LevelPath (Arrangement κ))
      (inside : Within root outward
        (.level level.name level.serial level.inner level.seals level.home))
      (below : StackOf root outward) : StackOf root (level :: outward)

/-- The levels a stack goes on with are a stack. -/
theorem stack_suffix (root : Arrangement κ) (skipped path : LevelPath (Arrangement κ))
    (stack : StackOf root (skipped ++ path)) : StackOf root path := by
  induction skipped with
  | nil => exact stack
  | cons level rest ih =>
    cases stack with
    | cons _ _ _ below => exact ih below

/-- What is within a plain root is plain. -/
theorem within_plain (root space : Arrangement κ) (path : LevelPath (Arrangement κ))
    (plain : Plain root) (inside : Within root path space) : Plain space := by
  induction inside with
  | root => exact plain
  | mount path head inner id outer ih =>
    cases ih with
    | mount _ _ _ plain => exact plain
  | fallback path spaces id space member outer ih =>
    cases ih with
    | fallback _ _ plain => exact plain space member
  | level path level outer ih =>
    cases ih with
    | level _ _ _ _ _ plain => exact plain
  | «alias» path table inner id outer ih =>
    cases ih with
    | «alias» _ _ _ _ plain => exact plain

/-- A hit of a binding is at no level and under no alias: it names its door. -/
theorem first_binding_hit (target : Iri) (bindings : List (Grammar × Endpoint))
    (hit : Resolved (Arrangement κ)) (answered : firstBinding target bindings = .hit hit) :
    hit.canonical = none ∧ hit.levels = [] ∧
      ∃ binding ∈ bindings, ∃ captures, binding.1.matchIri target = some captures := by
  induction bindings with
  | nil => cases answered
  | cons binding rest ih =>
    obtain ⟨grammar, endpoint⟩ := binding
    simp only [firstBinding] at answered
    cases matched : grammar.matchIri target with
    | some captures =>
      have same : Resolved.new endpoint captures = hit := by simpa [matched] using answered
      exact ⟨same ▸ rfl, same ▸ rfl, (grammar, endpoint), List.mem_cons_self .., captures, matched⟩
    | none =>
      obtain ⟨bare, flat, other, inside, found⟩ := ih (by simpa [matched] using answered)
      exact ⟨bare, flat, other, List.mem_cons_of_mem _ inside, found⟩

/-- Filling in an answerer leaves what was found as it is. -/
theorem answered_hit (resolution : Resolution (Arrangement κ)) (id : Option Iri)
    (hit : Resolved (Arrangement κ)) (filled : answered resolution id = .hit hit) :
    ∃ inner, resolution = .hit inner ∧ inner.endpoint = hit.endpoint ∧
      inner.canonical = hit.canonical ∧ inner.levels = hit.levels := by
  cases resolution with
  | miss => cases id <;> cases filled
  | hit inner =>
    refine ⟨inner, rfl, ?_⟩
    cases id <;> cases filled <;> exact ⟨rfl, rfl, rfl⟩

section Resolving

variable [Blake3] [IriSyntax] [Foreign κ]

/-- A hit of some spaces is a hit of one of them. -/
theorem resolve_first_hit (scope : Scope (Arrangement κ)) (request : Request)
    (spaces : List (Arrangement κ)) (hit : Resolved (Arrangement κ))
    (answered : resolveFirst scope spaces request = .hit hit) :
    ∃ space ∈ spaces, resolve scope space request = .hit hit := by
  induction spaces with
  | nil => simp [resolveFirst] at answered
  | cons space rest ih =>
    simp only [resolveFirst] at answered
    cases first : resolve scope space request with
    | hit found =>
      refine ⟨space, List.mem_cons_self .., ?_⟩
      simpa [first] using answered
    | miss =>
      obtain ⟨other, inside, found⟩ := ih (by simpa [first] using answered)
      exact ⟨other, List.mem_cons_of_mem _ inside, found⟩

/-- Where no rule resolves from the root, an alias answers in its child or refuses. -/
theorem alias_resolve (scope : Scope (Arrangement κ)) (table : AliasTable)
    (inner : Arrangement κ) (id : Option Iri)
    (children : ∀ rule ∈ table.rules, rule.resolveAt = .child) (request : Request) :
    resolve scope (.«alias» table inner id) request =
      answered
        (match table.canonicalize request.target with
          | .direct => resolve scope inner request
          | .aliased hop =>
            rewritten (resolve scope inner { request with target := hop.canonical }) hop.canonical
          | .refused refusal => .hit (Resolved.new (.refusal refusal.logical) []))
        id := by
  have never (index : Nat) :
      ((table.rules[index]?.map AliasRule.resolveAt) == some .root) = false := by
    cases listed : table.rules[index]? with
    | none => rfl
    | some rule => simp [children rule (List.mem_of_getElem? listed)]
  rw [resolve]
  congr 1
  cases table.canonicalize request.target with
  | direct => rfl
  | refused refusal => rfl
  | aliased hop => simp only [never, List.any_eq_false.mpr fun _ _ => Bool.false_ne_true,
      Bool.false_eq_true, if_false]

omit [IriSyntax] in
/-- The topologies of some spaces are each one's. -/
theorem topologies_eq_map (spaces : List (Arrangement κ)) :
    topologies spaces = spaces.map topology := by
  induction spaces with
  | nil => rfl
  | cons space rest ih => rw [topologies, ih, List.map_cons]

open Seals Seals.Found

omit [IriSyntax] in
/-- A space inside an arrangement is walked with the names of its levels, and the walk
of the whole collects everything that walk collects. -/
theorem within_walk (root space : Arrangement κ) (path : LevelPath (Arrangement κ))
    (inside : Within root path space) :
    ∃ levels rootGate, levels.map Prod.fst = path.map LevelCore.name ∧
      Among (walk levels rootGate (topology space)) (walk [] (some []) (topology root)) := by
  induction inside with
  | root => exact ⟨[], some [], rfl, Among.refl _⟩
  | mount path head inner id outer ih =>
    obtain ⟨levels, rootGate, named, among⟩ := ih
    refine ⟨levels.map fun (name, gate) => (name, narrow gate head), narrow rootGate head, ?_, ?_⟩
    · rw [← named, List.map_map]
      rfl
    · rwa [topology, walk, walk_all_one] at among
  | fallback path spaces id space member outer ih =>
    obtain ⟨levels, rootGate, named, among⟩ := ih
    refine ⟨levels, rootGate, named, ?_⟩
    simp only [topology, walk, topologies_eq_map] at among
    exact (walk_all_child levels rootGate _ _ (List.mem_map_of_mem member)).trans _ _ _ among
  | level path level outer ih =>
    obtain ⟨levels, rootGate, named, among⟩ := ih
    refine ⟨(level.name, some []) :: levels, rootGate, by rw [List.map_cons, named]; rfl, ?_⟩
    simp only [topology, walk, walk_all_one] at among
    exact (among_right _ _).trans _ _ _ among
  | «alias» path table inner id outer ih =>
    obtain ⟨levels, rootGate, named, among⟩ := ih
    refine ⟨levels, rootGate, named, ?_⟩
    rw [topology, walk, walk_all_one] at among
    exact (among_right _ _).trans _ _ _ among

/-- A hit in a space extends a stack that reaches the space. -/
theorem hit_stack (root space : Arrangement κ) (plain : Plain space)
    (path : LevelPath (Arrangement κ)) (inside : Within root path space)
    (stack : StackOf root path) (scope : Scope (Arrangement κ)) (request : Request)
    (hit : Resolved (Arrangement κ)) (answered : resolve scope space request = .hit hit) :
    StackOf root (hit.levels ++ path) := by
  induction plain generalizing path request hit with
  | endpointSpace bindings id =>
    rw [resolve] at answered
    obtain ⟨inner, found, _, _, levels⟩ := answered_hit _ id hit answered
    rw [← levels, (first_binding_hit request.target bindings inner found).2.1]
    exact stack
  | mount head inner id plain ih =>
    rw [resolve] at answered
    split at answered
    · obtain ⟨found, answered, _, _, levels⟩ := answered_hit _ id hit answered
      rw [← levels]
      exact ih path (.mount path head inner id inside) stack request found answered
    · cases answered
  | fallback spaces id plain ih =>
    rw [resolve] at answered
    obtain ⟨found, answered, _, _, levels⟩ := answered_hit _ id hit answered
    obtain ⟨space, member, answered⟩ := resolve_first_hit scope request spaces found answered
    rw [← levels]
    exact ih space member path (.fallback path spaces id space member inside) stack request found
      answered
  | limit family id =>
    rw [resolve] at answered
    split at answered
    · obtain ⟨found, same, _, _, levels⟩ := answered_hit _ id hit answered
      cases same
      rw [← levels]
      exact stack
    · cases answered
  | level name serial inner seals home plain ih =>
    rw [resolve] at answered
    cases found : resolve scope inner request with
    | miss => simp [found] at answered
    | hit found' =>
      have same : found'.within ⟨name, serial, inner, seals, home⟩ = hit := by
        simpa [found] using answered
      rw [← same, Resolved.within, List.append_assoc]
      exact ih (⟨name, serial, inner, seals, home⟩ :: path) (.level path _ inside)
        (.cons _ path inside stack) request found' found
  | «alias» table inner id children plain ih =>
    rw [alias_resolve scope table inner id children] at answered
    obtain ⟨outcome, answered, _, _, levels⟩ := answered_hit _ id hit answered
    rw [← levels]
    have inner' := Within.«alias» path table inner id inside
    cases rewrite : table.canonicalize request.target with
    | direct => exact ih path inner' stack request outcome (by simpa [rewrite] using answered)
    | refused refusal =>
      simp only [rewrite] at answered
      cases answered
      exact stack
    | aliased hop =>
      simp only [rewrite] at answered
      cases found : resolve scope inner { request with target := hop.canonical } with
      | miss => simp [found, rewritten] at answered
      | hit found' =>
        have same : found'.withCanonical hop.canonical = outcome := by
          simpa [found, rewritten] using answered
        rw [← same]
        exact ih path inner' stack _ found' found

omit [Blake3] [Foreign κ] in
/-- A name that an alias does not leave as it is comes to a rule of the alias. -/
theorem rule_serves (table : AliasTable) (children : ∀ rule ∈ table.rules, rule.resolveAt = .child)
    (target : Iri) (moved : table.canonicalize target ≠ .direct)
    (levels : List (Iri × Option Text)) (rootGate : Option Text) :
    ∃ door ∈ (table.rules.map summary).map (ruleDoor levels rootGate),
      door.Serves target ([] : LevelPath (Arrangement κ)) levels rootGate := by
  obtain ⟨rule, member, next, applied⟩ := table.rewrites_matched target moved
  refine ⟨ruleDoor levels rootGate (summary rule),
    List.mem_map_of_mem (List.mem_map_of_mem member),
    rule_matches rule (children rule member) target next applied levels rootGate, ?_, ?_⟩
  · simp only [ruleDoor, summary]
    cases rule.kind <;> exact narrowed_refl target levels
  · simp only [ruleDoor, summary]
    cases rule.kind <;> exact fun passes => passes

/-- Every hit on a real endpoint is traced by doors that the walk collects. -/
theorem hit_traced (space : Arrangement κ) (plain : Plain space) (scope : Scope (Arrangement κ))
    (request : Request) (hit : Resolved (Arrangement κ))
    (answered : resolve scope space request = .hit hit) (real : hit.endpoint.isLimiter = false)
    (levels : List (Iri × Option Text)) (rootGate : Option Text) :
    TracedBy (walk levels rootGate (topology space)).doors request.target hit levels rootGate := by
  induction plain generalizing request hit levels rootGate with
  | endpointSpace bindings id =>
    rw [resolve] at answered
    obtain ⟨inner, found, _, canonical, path⟩ := answered_hit _ id hit answered
    obtain ⟨bare, flat, binding, member, captures, matched⟩ :=
      first_binding_hit request.target bindings inner found
    refine .of_serves (door binding.1.pattern binding.1.matchKind levels rootGate) ?_
      (canonical.symm.trans bare) ⟨?_, ?_, fun passes => passes⟩
    · rw [topology, walk]
      simp only [List.map_map]
      exact List.mem_map_of_mem member
    · exact grammar_matches binding.1 request.target captures matched levels rootGate
    · rw [← path, flat]
      exact narrowed_refl request.target levels
  | mount head inner id plain ih =>
    rw [resolve] at answered
    split at answered
    · rename_i admits
      have opens := (Text.starts_with_iff request.target head).mp admits
      obtain ⟨found, answered, endpoint, canonical, path⟩ := answered_hit _ id hit answered
      obtain ⟨⟨door, shown, deeper, outward, parts, bare, serves⟩, door', shown', answers, named⟩ :=
        ih request found answered (endpoint ▸ real)
          (levels.map fun (name, gate) => (name, narrow gate head)) (narrow rootGate head)
      rw [topology, walk, walk_all_one]
      refine ⟨⟨door, shown, deeper, outward, path ▸ parts, canonical ▸ bare, serves.matched, ?_, ?_⟩,
        door', shown', canonical ▸ answers, ?_⟩
      · refine narrowed_trans _ _ _ _ ?_ serves.route
        exact List.rel_append (narrowed_refl _ _) (mount_narrows request.target head levels opens)
      · exact fun passes => serves.root (narrow_passes rootGate head request.target passes opens)
      · rw [named, path, List.map_map]
        rfl
    · cases answered
  | fallback spaces id plain ih =>
    rw [resolve] at answered
    obtain ⟨found, answered, endpoint, canonical, path⟩ := answered_hit _ id hit answered
    obtain ⟨space, member, answered⟩ := resolve_first_hit scope request spaces found answered
    refine (ih space member request found answered (endpoint ▸ real) levels rootGate).shown_by ?_
      canonical path
    simp only [topology, walk, topologies_eq_map]
    exact (walk_all_child levels rootGate _ _ (List.mem_map_of_mem member)).doors
  | limit family id =>
    rw [resolve] at answered
    split at answered
    · obtain ⟨found, isBottom, endpoint, _, _⟩ := answered_hit _ id hit answered
      cases isBottom
      rw [← endpoint] at real
      cases real
    · cases answered
  | level name serial inner seals home plain ih =>
    rw [resolve] at answered
    cases found : resolve scope inner request with
    | miss => simp [found] at answered
    | hit found' =>
      have same : found'.within ⟨name, serial, inner, seals, home⟩ = hit := by
        simpa [found] using answered
      subst same
      obtain ⟨⟨door, shown, deeper, outward, parts, bare, serves⟩, door', shown', answers, named⟩ :=
        ih request found' found real ((name, some []) :: levels) rootGate
      simp only [topology, walk, walk_all_one]
      refine ⟨⟨door, (among_right _ _).doors shown, deeper,
        outward ++ [⟨name, serial, inner, seals, home⟩], ?_, bare, serves.matched, ?_, serves.root⟩,
        door', (among_right _ _).doors shown', answers, ?_⟩
      · rw [Resolved.within, parts, List.append_assoc]
      · simpa [openRoute] using serves.route
      · simpa [Resolved.within] using named
  | «alias» table inner id children plain ih =>
    rw [alias_resolve scope table inner id children] at answered
    obtain ⟨outcome, answered, endpoint, canonical, path⟩ := answered_hit _ id hit answered
    rw [topology, walk, walk_all_one]
    cases rewrite : table.canonicalize request.target with
    | direct =>
      exact (ih request outcome (by simpa [rewrite] using answered) (endpoint ▸ real) levels
        rootGate).shown_by (among_right _ _).doors canonical path
    | refused refusal =>
      obtain ⟨door, shown, serves⟩ := rule_serves table children request.target
        (by simp [rewrite]) levels rootGate
      simp only [rewrite] at answered
      cases answered
      refine .of_serves door ((among_left _ _).doors shown) canonical.symm ?_
      rw [← path]
      exact serves
    | aliased hop =>
      obtain ⟨door, shown, serves⟩ := rule_serves table children request.target
        (by simp [rewrite]) levels rootGate
      simp only [rewrite] at answered
      cases found : resolve scope inner { request with target := hop.canonical } with
      | miss => simp [found, rewritten] at answered
      | hit found' =>
        have moved : found'.withCanonical hop.canonical = outcome := by
          simpa [found, rewritten] using answered
        subst moved
        obtain ⟨door', shown', answers, named⟩ :=
          (ih _ found' found (endpoint ▸ real) levels rootGate).landed
        -- the name goes no further than the rule: what is below it is the rewritten name's way
        refine ⟨⟨door, (among_left _ _).doors shown, hit.levels, [], (List.append_nil _).symm, ?_,
          serves⟩, door', (among_right _ _).doors shown', ?_, ?_⟩
        · intro unmoved
          rw [← canonical] at unmoved
          cases unmoved
        · rw [← canonical]
          exact answers
        · rw [← path]
          exact named

end Resolving

end Arrangement

end Ikigai
