import Ikigai.OrderedSet

/-!
# The smallest of a list, named as they come

A bounded set kept while a list is visited: until it is full every item goes in, and then a
smaller one takes the place of the largest. What is kept is the smallest distinct items, in
whatever order they came. What is counted is one for each item that was passed over and one for
each item taken out, so an item that came twice before it was taken out is counted one short.
-/

namespace Ikigai

/-- The items kept so far, and how many were not. -/
structure Naming (α : Type) [LinearOrder α] where
  kept : OrderedSet α := .empty
  more : Nat := 0

namespace Naming

variable {α : Type} [LinearOrder α]

/-- One more item. -/
def visit (bound : Nat) (naming : Naming α) (item : α) : Naming α :=
  if naming.kept.items.length < bound then { naming with kept := naming.kept.insert item }
  else
    match naming.kept.items.getLast? with
    -- a full set has a largest
    | none => naming
    | some largest =>
      if largest < item then { naming with more := naming.more + 1 }
      else if item ∈ naming.kept then naming
      else
        { kept := (naming.kept.filter (· ≠ largest)).insert item
          more := naming.more + 1 }

/-- All items, in the order they come. -/
def visitAll (bound : Nat) (items : List α) : Naming α := items.foldl (visit bound) {}

/-- A visit more comes last. -/
theorem visit_all_concat (bound : Nat) (items : List α) (item : α) :
    visitAll bound (items ++ [item]) = (visitAll bound items).visit bound item := by
  rw [visitAll, List.foldl_concat]
  rfl

/-- How many distinct items of a list are smaller than one. -/
def rank (items : List α) (item : α) : Nat := (items.toFinset.filter (· < item)).card

/-- An item has no more below it among fewer. -/
theorem rank_mono {front items : List α} (within : front ⊆ items) (item : α) :
    rank front item ≤ rank items item := by
  apply Finset.card_le_card
  intro other inside
  rw [Finset.mem_filter, List.mem_toFinset] at inside ⊢
  exact ⟨within inside.1, inside.2⟩

/-- How many are below an item does not depend on their order. -/
theorem rank_of_perm {items others : List α} (perm : items.Perm others) (item : α) :
    rank items item = rank others item := by
  rw [rank, rank, List.toFinset_eq_of_perm _ _ perm]

/-- What is kept are items of the list, within the bound, and whatever else there is in the list
is larger than as many as the bound allows. -/
structure Smallest (bound : Nat) (items : List α) (kept : OrderedSet α) : Prop where
  inside : ∀ item ∈ kept, item ∈ items
  within : kept.items.length ≤ bound
  beyond : ∀ item ∈ items, item ∉ kept →
    kept.items.length = bound ∧ ∀ smaller ∈ kept, smaller < item

/-- How many items of a list are kept. -/
def named (items : List α) (kept : OrderedSet α) : Nat := items.countP fun item => item ∈ kept

/-- What is kept is as many as its list is long. -/
theorem card_kept (kept : OrderedSet α) : kept.items.toFinset.card = kept.items.length :=
  List.toFinset_card_of_nodup (kept.increasing.imp fun less => less.ne)

/-- An item is kept exactly when fewer than the bound are smaller. -/
theorem Smallest.mem_iff {bound : Nat} {items : List α} {kept : OrderedSet α}
    (smallest : Smallest bound items kept) (item : α) :
    item ∈ kept ↔ item ∈ items ∧ rank items item < bound := by
  constructor
  · intro here
    refine ⟨smallest.inside item here, ?_⟩
    have least : items.toFinset.filter (· < item) ⊆ kept.items.toFinset.erase item := by
      intro other less
      rw [Finset.mem_filter, List.mem_toFinset] at less
      rw [Finset.mem_erase, List.mem_toFinset]
      refine ⟨less.2.ne, ?_⟩
      by_contra missing
      exact absurd less.2 ((smallest.beyond other less.1 missing).2 item here).asymm
    have listed : item ∈ kept.items.toFinset := List.mem_toFinset.mpr here
    calc rank items item ≤ (kept.items.toFinset.erase item).card := Finset.card_le_card least
      _ < kept.items.toFinset.card := Finset.card_erase_lt_of_mem listed
      _ = kept.items.length := card_kept kept
      _ ≤ bound := smallest.within
  · rintro ⟨inside, few⟩
    by_contra missing
    obtain ⟨full, larger⟩ := smallest.beyond item inside missing
    have all : kept.items.toFinset ⊆ items.toFinset.filter (· < item) := by
      intro other here
      rw [List.mem_toFinset] at here
      rw [Finset.mem_filter, List.mem_toFinset]
      exact ⟨smallest.inside other here, larger other here⟩
    have many := Finset.card_le_card all
    rw [card_kept, full] at many
    exact absurd few (Nat.not_lt.mpr many)

/-- Placing an item makes the list one longer, unless it was there. -/
theorem length_place (item : α) (items : List α) (increasing : items.Pairwise (· < ·)) :
    (OrderedSet.place item items).length =
      if item ∈ items then items.length else items.length + 1 := by
  induction items with
  | nil => rfl
  | cons first rest ih =>
    obtain ⟨least, further⟩ := List.pairwise_cons.mp increasing
    rw [OrderedSet.place]
    split
    · rename_i less
      have fresh : item ∉ first :: rest := by
        rw [List.mem_cons]
        rintro (rfl | inside)
        · exact lt_irrefl _ less
        · exact absurd less (least item inside).asymm
      rw [if_neg fresh]
      rfl
    · split
      · rename_i same
        rw [if_pos (same ▸ List.mem_cons_self)]
      · rename_i apart
        have tail : item ∈ first :: rest ↔ item ∈ rest := by simp [apart]
        rw [List.length_cons, ih further]
        simp only [tail]
        split <;> rfl

/-- The last of an increasing list is the largest. -/
theorem le_last {kept : OrderedSet α} {largest : α} (last : kept.items.getLast? = some largest)
    (item : α) (here : item ∈ kept) : item ≤ largest := by
  obtain ⟨front, split⟩ := List.getLast?_eq_some_iff.mp last
  have increasing := kept.increasing
  rw [split, List.pairwise_append] at increasing
  have listed : item ∈ front ++ [largest] := split ▸ here
  rcases List.mem_append.mp listed with inside | same
  · exact (increasing.2.2 item inside largest List.mem_cons_self).le
  · exact (List.mem_singleton.mp same).le

/-- The largest kept is among the kept. -/
theorem last_mem {kept : OrderedSet α} {largest : α} (last : kept.items.getLast? = some largest) :
    largest ∈ kept :=
  List.mem_of_getLast? last

/-- Without one of the kept there is one fewer. -/
theorem length_without {kept : OrderedSet α} {largest : α} (here : largest ∈ kept) :
    (kept.filter (· ≠ largest)).items.length + 1 = kept.items.length := by
  have nodup : kept.items.Nodup := kept.increasing.imp fun less => less.ne
  have erased : (kept.filter (· ≠ largest)).items = kept.items.erase largest := by
    rw [nodup.erase_eq_filter, OrderedSet.filter]
    exact List.filter_congr fun item _ => by by_cases same : item = largest <;> simp [same]
  rw [erased, List.length_erase_of_mem here]
  exact Nat.sub_add_cancel (List.length_pos_of_mem here)

/-- What one visit does: the item is kept, or was; or it is passed over; or it takes the place of
the largest, and had not come before. -/
inductive Visited (bound : Nat) (items : List α) (naming : Naming α) (item : α) : Naming α → Prop
  | taken (kept : OrderedSet α) (members : ∀ other, other ∈ kept ↔ other = item ∨ other ∈ naming.kept)
      (fresh : item ∈ naming.kept ∨ item ∉ items) :
      Visited bound items naming item { naming with kept := kept }
  | passed (beyond : item ∉ naming.kept) :
      Visited bound items naming item { naming with more := naming.more + 1 }
  | replaced (largest : α) (here : largest ∈ naming.kept) (fresh : item ∉ items)
      (less : item < largest) (kept : OrderedSet α)
      (members : ∀ other, other ∈ kept ↔ other = item ∨ other ∈ naming.kept ∧ other ≠ largest) :
      Visited bound items naming item { kept := kept, more := naming.more + 1 }

/-- A visit keeps the smallest, and does one of these. -/
theorem visit_smallest {bound : Nat} (positive : 0 < bound) {items : List α} {naming : Naming α}
    (smallest : Smallest bound items naming.kept) (item : α) :
    Smallest bound (items ++ [item]) (naming.visit bound item).kept ∧
      Visited bound items naming item (naming.visit bound item) := by
  rw [visit]
  split
  · rename_i few
    have every (other : α) (inside : other ∈ items) : other ∈ naming.kept := by
      by_contra missing
      exact few.ne (smallest.beyond other inside missing).1
    refine ⟨⟨fun other here => ?_, ?_, fun other inside missing => ?_⟩,
      .taken _ (fun other => OrderedSet.mem_insert _ _ _) ?_⟩
    · rcases (OrderedSet.mem_insert _ _ _).mp here with rfl | before
      · exact List.mem_append_right _ List.mem_cons_self
      · exact List.mem_append_left _ (smallest.inside other before)
    · rw [OrderedSet.insert, length_place _ _ naming.kept.increasing]
      split
      · exact few.le
      · exact few
    · refine absurd ?_ missing
      rw [OrderedSet.mem_insert]
      rcases List.mem_append.mp inside with before | same
      · exact .inr (every other before)
      · exact .inl (List.mem_singleton.mp same)
    · by_cases here : item ∈ naming.kept
      · exact .inl here
      · exact .inr (mt (every item) here)
  · rename_i full
    have full : naming.kept.items.length = bound :=
      le_antisymm smallest.within (Nat.le_of_not_lt full)
    cases last : naming.kept.items.getLast? with
    | none =>
      rw [List.getLast?_eq_none_iff] at last
      rw [last] at full
      exact absurd full positive.ne
    | some largest =>
      dsimp only
      have most := le_last last
      have here := last_mem last
      split
      · rename_i larger
        have missing : item ∉ naming.kept := fun inside => absurd larger (most item inside).not_gt
        refine ⟨⟨fun other inside => List.mem_append_left _ (smallest.inside other inside),
          smallest.within, fun other inside gone => ?_⟩, .passed missing⟩
        rcases List.mem_append.mp inside with before | same
        · exact smallest.beyond other before gone
        · cases List.mem_singleton.mp same
          exact ⟨full, fun smaller kept => (most smaller kept).trans_lt larger⟩
      · rename_i notLarger
        split
        · rename_i known
          refine ⟨⟨fun other inside => List.mem_append_left _ (smallest.inside other inside),
            smallest.within, fun other inside gone => ?_⟩,
            .taken naming.kept (fun other => ?_) (.inl known)⟩
          · rcases List.mem_append.mp inside with before | same
            · exact smallest.beyond other before gone
            · cases List.mem_singleton.mp same
              exact absurd known gone
          · constructor
            · exact .inr
            · rintro (rfl | before)
              · exact known
              · exact before
        · rename_i unknown
          have less : item < largest := by
            refine lt_of_le_of_ne (not_lt.mp notLarger) ?_
            rintro rfl
            exact unknown here
          have fresh : item ∉ items := fun inside =>
            notLarger ((smallest.beyond item inside unknown).2 largest here)
          have members (other : α) : other ∈ (naming.kept.filter (· ≠ largest)).insert item ↔
              other = item ∨ other ∈ naming.kept ∧ other ≠ largest := by
            rw [OrderedSet.mem_insert, OrderedSet.mem_filter, decide_eq_true_iff]
          have room := length_without here
          have counted : ((naming.kept.filter (· ≠ largest)).insert item).items.length = bound := by
            have without : item ∉ (naming.kept.filter (· ≠ largest)).items := fun inside =>
              unknown ((OrderedSet.mem_filter _ _ _).mp inside).1
            rw [OrderedSet.insert, length_place _ _ (OrderedSet.increasing _), if_neg without, room]
            exact full
          refine ⟨⟨fun other inside => ?_, counted.le, fun other inside gone => ⟨counted, ?_⟩⟩,
            .replaced largest here fresh less _ members⟩
          · rcases (members other).mp inside with rfl | ⟨before, _⟩
            · exact List.mem_append_right _ List.mem_cons_self
            · exact List.mem_append_left _ (smallest.inside other before)
          · intro smaller kept
            rw [members] at gone
            have above : largest ≤ other := by
              rcases List.mem_append.mp inside with before | same
              · by_cases held : other ∈ naming.kept
                · have same : other = largest := by
                    by_contra apart
                    exact gone (.inr ⟨held, apart⟩)
                  exact same.ge
                · exact ((smallest.beyond other before held).2 largest here).le
              · exact absurd (.inl (List.mem_singleton.mp same)) gone
            rcases (members smaller).mp kept with rfl | ⟨before, apart⟩
            · exact less.trans_le above
            · exact (lt_of_le_of_ne (most smaller before) apart).trans_le above

/-- No item that is left out came twice before as many as the bound smaller ones had come. -/
def CountedOnce (bound : Nat) (items : List α) : Prop :=
  ∀ front item, front <+: items → bound ≤ rank items item → rank front item < bound →
    front.count item ≤ 1

/-- One more item leaves that so when what it pushes out came once. -/
theorem counted_once_concat (bound : Nat) (items : List α) (item : α) :
    CountedOnce bound (items ++ [item]) ↔ CountedOnce bound items ∧
      ∀ other, bound ≤ rank (items ++ [item]) other → rank items other < bound →
        items.count other ≤ 1 := by
  constructor
  · intro once
    refine ⟨fun front other within out => ?_, fun other out => ?_⟩
    · exact once front other (within.trans (List.prefix_append _ _))
        (out.trans (rank_mono (List.subset_append_left _ _) other))
    · exact once items other (List.prefix_append _ _) out
  · rintro ⟨once, pushed⟩ front other within out few
    rcases List.prefix_concat_iff.mp within with whole | within
    · rw [whole] at few
      exact absurd few (Nat.not_lt.mpr out)
    · by_cases before : bound ≤ rank items other
      · exact once front other within before few
      · exact (within.sublist.count_le other).trans (pushed other out (Nat.lt_of_not_le before))

/-- One item more is named once more if it is kept. -/
theorem named_concat (items : List α) (item : α) (kept : OrderedSet α) :
    named (items ++ [item]) kept = named items kept + if item ∈ kept then 1 else 0 := by
  rw [named, List.countP_append, List.countP_singleton]
  simp [named]

/-- What is named depends on which of the items are kept alone. -/
theorem named_congr {items : List α} {kept kept' : OrderedSet α}
    (same : ∀ item ∈ items, item ∈ kept' ↔ item ∈ kept) : named items kept' = named items kept := by
  apply List.countP_congr
  intro item inside
  simp [same item inside]

/-- Without one of what is kept, as many fewer are named as it came. -/
theorem named_without {items : List α} {kept kept' : OrderedSet α} {largest : α}
    (here : largest ∈ kept)
    (members : ∀ item ∈ items, item ∈ kept' ↔ item ∈ kept ∧ item ≠ largest) :
    named items kept' + items.count largest = named items kept := by
  induction items with
  | nil => rfl
  | cons first rest ih =>
    have tail := ih fun item inside => members item (List.mem_cons_of_mem _ inside)
    have head := members first List.mem_cons_self
    rw [named, named] at tail ⊢
    rw [List.countP_cons, List.countP_cons, List.count_cons]
    by_cases same : first = largest
    · subst same
      simp only [head, here, ne_eq, not_true_eq_false, and_false, decide_false, decide_true,
        Bool.false_eq_true, if_true, if_false, beq_self_eq_true]
      omega
    · have other : (first == largest) = false := by simpa using same
      simp only [head, same, ne_eq, not_false_eq_true, and_true, other, Bool.false_eq_true,
        if_false]
      omega

/-- What the count says of a list: what is kept is the smallest, and what is named and what is
counted make up the list when everything was counted once, and less otherwise. -/
structure Accounts (bound : Nat) (items : List α) (naming : Naming α) : Prop where
  smallest : Smallest bound items naming.kept
  most : named items naming.kept + naming.more ≤ items.length
  exact_iff : named items naming.kept + naming.more = items.length ↔ CountedOnce bound items

/-- Where nothing that came is pushed out, the account is one longer. -/
theorem Accounts.longer {bound : Nat} {items : List α} {naming later : Naming α} {item : α}
    (accounts : Accounts bound items naming)
    (smallest : Smallest bound (items ++ [item]) later.kept)
    (kept : ∀ other ∈ naming.kept, other ∈ later.kept)
    (one : named (items ++ [item]) later.kept + later.more =
      named items naming.kept + naming.more + 1) :
    Accounts bound (items ++ [item]) later := by
  have stays (other : α) (out : bound ≤ rank (items ++ [item]) other)
      (few : rank items other < bound) : items.count other ≤ 1 := by
    by_contra twice
    have inside : other ∈ items := List.count_pos_iff.mp (by omega)
    have here := kept other ((accounts.smallest.mem_iff other).mpr ⟨inside, few⟩)
    exact absurd ((smallest.mem_iff other).mp here).2 (Nat.not_lt.mpr out)
  refine ⟨smallest, ?_, ?_⟩
  · rw [one, List.length_append, List.length_singleton]
    exact Nat.succ_le_succ accounts.most
  · rw [one, List.length_append, List.length_singleton, Nat.add_right_cancel_iff,
      accounts.exact_iff, counted_once_concat]
    exact (and_iff_left stays).symm

/-- One more item, accounted for. -/
theorem Accounts.visit {bound : Nat} (positive : 0 < bound) {items : List α} {naming : Naming α}
    (accounts : Accounts bound items naming) (item : α) :
    Accounts bound (items ++ [item]) (naming.visit bound item) := by
  obtain ⟨smallest, visited⟩ := visit_smallest positive accounts.smallest item
  generalize naming.visit bound item = later at smallest visited
  cases visited with
  | taken kept members fresh =>
    refine accounts.longer smallest (fun other here => (members other).mpr (.inr here)) ?_
    have same : named items kept = named items naming.kept := by
      apply named_congr
      intro other inside
      rw [members]
      constructor
      · rintro (rfl | here)
        · exact fresh.resolve_right fun missing => missing inside
        · exact here
      · exact .inr
    rw [named_concat, if_pos ((members item).mpr (.inl rfl)), same]
    exact Nat.add_right_comm _ _ _
  | passed beyond =>
    refine accounts.longer smallest (fun other here => here) ?_
    rw [named_concat, if_neg beyond]
    rfl
  | replaced largest here fresh less kept members =>
    have gone : largest ∉ kept := by
      rw [members]
      rintro (rfl | ⟨_, apart⟩)
      · exact lt_irrefl _ less
      · exact apart rfl
    have inside := accounts.smallest.inside largest here
    have came := List.count_pos_iff.mpr inside
    have without : named items kept + items.count largest = named items naming.kept := by
      apply named_without here
      intro other within
      rw [members]
      constructor
      · rintro (rfl | still)
        · exact absurd within fresh
        · exact still
      · exact .inr
    have pushed : (∀ other, bound ≤ rank (items ++ [item]) other → rank items other < bound →
        items.count other ≤ 1) ↔ items.count largest ≤ 1 := by
      constructor
      · intro every
        apply every largest
        · by_contra few
          exact gone ((smallest.mem_iff largest).mpr
            ⟨List.mem_append_left _ inside, Nat.lt_of_not_le few⟩)
        · exact ((accounts.smallest.mem_iff largest).mp here).2
      · intro once other out few
        by_cases same : other = largest
        · exact same ▸ once
        · by_contra twice
          have within : other ∈ items := List.count_pos_iff.mp (by omega)
          have stays := (members other).mpr
            (.inr ⟨(accounts.smallest.mem_iff other).mpr ⟨within, few⟩, same⟩)
          exact absurd ((smallest.mem_iff other).mp stays).2 (Nat.not_lt.mpr out)
    have most := accounts.most
    refine ⟨smallest, ?_, ?_⟩
    · rw [named_concat, if_pos ((members item).mpr (.inl rfl)), List.length_append,
        List.length_singleton]
      show named items kept + 1 + (naming.more + 1) ≤ _
      omega
    · rw [counted_once_concat, pushed, ← accounts.exact_iff, named_concat,
        if_pos ((members item).mpr (.inl rfl)), List.length_append, List.length_singleton]
      show named items kept + 1 + (naming.more + 1) = _ ↔ _
      omega

/-- Every list is accounted for. -/
theorem accounts_all {bound : Nat} (positive : 0 < bound) (items : List α) :
    Accounts bound items (visitAll bound items) := by
  induction items using List.reverseRecOn with
  | nil =>
    refine ⟨⟨nofun, Nat.zero_le _, nofun⟩, Nat.le_refl _, ?_⟩
    refine ⟨fun _ front item within _ _ => ?_, fun _ => rfl⟩
    rw [List.prefix_nil.mp within]
    exact Nat.zero_le _
  | append_singleton items item ih =>
    rw [visit_all_concat]
    exact ih.visit positive item

/-- How many of a set are below an item is told by its list. -/
theorem rank_eq_filter (set : OrderedSet α) (item : α) :
    (set.items.filter (· < item)).length = rank set.items item := by
  have nodup : set.items.Nodup := set.increasing.imp fun less => less.ne
  rw [rank, ← List.toFinset_card_of_nodup (nodup.filter _)]
  congr 1
  ext other
  simp

/-- The first of an increasing list are those with few smaller ones. -/
theorem mem_take_iff (items : List α) (increasing : items.Pairwise (· < ·)) (bound : Nat)
    (item : α) :
    item ∈ items.take bound ↔ item ∈ items ∧ (items.filter (· < item)).length < bound := by
  induction items generalizing bound with
  | nil => simp
  | cons first rest ih =>
    obtain ⟨least, further⟩ := List.pairwise_cons.mp increasing
    cases bound with
    | zero => simp
    | succ bound =>
      have none (found : α) (inside : found ∈ rest) : ¬ found < first := (least found inside).asymm
      rw [List.take_succ_cons, List.mem_cons, List.mem_cons, ih further]
      constructor
      · rintro (rfl | ⟨inside, few⟩)
        · refine ⟨.inl rfl, ?_⟩
          have nothing : (item :: rest).filter (· < item) = [] := by
            rw [List.filter_eq_nil_iff]
            intro found inside
            rcases List.mem_cons.mp inside with rfl | later
            · simp
            · simpa using (least found later).le
          rw [nothing]
          exact Nat.succ_pos _
        · refine ⟨.inr inside, ?_⟩
          rw [List.filter_cons_of_pos (by simpa using least item inside), List.length_cons]
          exact Nat.succ_lt_succ few
      · rintro ⟨rfl | inside, few⟩
        · exact .inl rfl
        · rw [List.filter_cons_of_pos (by simpa using least item inside), List.length_cons] at few
          exact .inr ⟨inside, Nat.lt_of_succ_lt_succ few⟩

/-- What is named is the first so many of the distinct items, in order. -/
theorem kept_smallest {bound : Nat} (positive : 0 < bound) (items : List α) :
    (visitAll bound items).kept.items = (OrderedSet.ofList items).items.take bound := by
  have sorted := OrderedSet.increasing (OrderedSet.ofList items)
  have same : (visitAll bound items).kept =
      ⟨(OrderedSet.ofList items).items.take bound, sorted.sublist (List.take_sublist _ _)⟩ := by
    apply OrderedSet.eq_of_mem
    intro item
    rw [(accounts_all positive items).smallest.mem_iff]
    have ranks : rank (OrderedSet.ofList items).items item = rank items item := by
      rw [rank, rank]
      congr 2
      ext other
      rw [List.mem_toFinset, List.mem_toFinset]
      exact OrderedSet.mem_of_list items other
    have taken := mem_take_iff _ sorted bound item
    rw [rank_eq_filter, ranks, OrderedSet.mem_items, OrderedSet.mem_of_list] at taken
    exact taken.symm
  rw [same]

/-- An item that is left out came once. -/
def OutOnce (bound : Nat) (items : List α) : Prop :=
  ∀ item, bound ≤ rank items item → items.count item ≤ 1

/-- Lists of the same items are told alike exactly when no item that is left out came twice. -/
theorem same_told_iff {bound : Nat} (positive : 0 < bound) (items : List α) :
    (∀ others : List α, others.Perm items → visitAll bound others = visitAll bound items) ↔
      OutOnce bound items := by
  have kept (others : List α) (perm : others.Perm items) :
      (visitAll bound others).kept = (visitAll bound items).kept := by
    apply OrderedSet.eq_of_mem
    intro item
    rw [(accounts_all positive others).smallest.mem_iff,
      (accounts_all positive items).smallest.mem_iff, perm.mem_iff, rank_of_perm perm]
  have named_perm (others : List α) (perm : others.Perm items) :
      named others (visitAll bound others).kept = named items (visitAll bound items).kept := by
    rw [kept others perm]
    exact perm.countP_eq _
  constructor
  · intro same item out
    by_contra twice
    obtain ⟨rest, perm⟩ : ∃ rest, (item :: item :: rest).Perm items := by
      refine ⟨(items.erase item).erase item, ?_⟩
      have first : item ∈ items := List.count_pos_iff.mp (by omega)
      have second : item ∈ items.erase item := by
        apply List.count_pos_iff.mp
        rw [List.count_erase_self]
        omega
      exact ((List.perm_cons_erase second).cons item).symm.trans (List.perm_cons_erase first).symm
    -- first the item twice, and then all of them in order
    have short := (accounts_all positive (item :: item :: rest)).exact_iff
    have sorted := (accounts_all positive (items.insertionSort (· ≤ ·))).exact_iff
    have ordered := List.perm_insertionSort (· ≤ ·) items
    have once : CountedOnce bound (items.insertionSort (· ≤ ·)) := by
      intro front other within out few
      have none : other ∉ front := by
        intro inside
        refine absurd few (Nat.not_lt.mpr (out.trans ?_))
        apply Finset.card_le_card
        intro smaller less
        rw [Finset.mem_filter, List.mem_toFinset] at less ⊢
        refine ⟨?_, less.2⟩
        obtain ⟨back, split⟩ := within
        have pairs := List.pairwise_insertionSort (· ≤ ·) items
        rw [← split] at pairs less
        rcases List.mem_append.mp less.1 with early | late
        · exact early
        · have more := (List.pairwise_append.mp pairs).2.2 other inside smaller late
          exact absurd less.2 (not_lt.mpr more)
      rw [List.count_eq_zero.mpr none]
      exact Nat.zero_le 1
    have all := sorted.mpr once
    rw [named_perm _ ordered, same _ ordered, ordered.length_eq] at all
    rw [named_perm _ perm, same _ perm, perm.length_eq] at short
    have twice_early := short.mp all [item, item] item ⟨rest, rfl⟩
      (by rw [rank_of_perm perm]; exact out)
    have first : rank [item, item] item = 0 := by
      rw [rank, Finset.card_eq_zero, Finset.filter_eq_empty_iff]
      intro other inside
      simp only [List.mem_toFinset, List.mem_cons, List.not_mem_nil, or_false, or_self] at inside
      exact inside ▸ lt_irrefl _
    rw [first] at twice_early
    have two := twice_early positive
    rw [List.count_cons_self, List.count_cons_self] at two
    omega
  · intro once others perm
    have counted (others : List α) (perm : others.Perm items) : CountedOnce bound others := by
      intro front item within out _
      rw [rank_of_perm perm] at out
      have all := once item out
      rw [← perm.count_eq] at all
      exact (within.sublist.count_le item).trans all
    have here := (accounts_all positive others).exact_iff.mpr (counted others perm)
    have there := (accounts_all positive items).exact_iff.mpr (counted items (List.Perm.refl _))
    rw [named_perm others perm, perm.length_eq] at here
    have more : (visitAll bound others).more = (visitAll bound items).more := by omega
    have told := kept others perm
    cases this : visitAll bound others
    cases that : visitAll bound items
    rw [this, that] at more told
    rw [Naming.mk.injEq]
    exact ⟨told, more⟩

end Naming

end Ikigai
