import Mathlib

/-!
# Keyed maps

A hash map is Mathlib's association list with distinct keys; nothing here depends on
the order it is iterated in. This module adds what that library leaves out: keeping
the entries that meet a condition, and the values.
-/

namespace Ikigai

/-- A map from keys to values of one type. -/
abbrev KeyedMap (κ ν : Type) := AList fun _ : κ => ν

namespace KeyedMap

variable {κ ν : Type}

/-- `HashMap::retain`. -/
def retain (map : KeyedMap κ ν) (keep : κ → ν → Bool) : KeyedMap κ ν :=
  ⟨map.entries.filter fun entry => keep entry.1 entry.2,
    map.nodupKeys.sublist List.filter_sublist⟩

/-- `HashMap::values`. -/
def values (map : KeyedMap κ ν) : List ν := map.entries.map fun entry => entry.2

/-- `HashMap::len`. -/
def length (map : KeyedMap κ ν) : Nat := map.entries.length

/-- The entries after the first so many. -/
def drop (map : KeyedMap κ ν) (count : Nat) : KeyedMap κ ν :=
  ⟨map.entries.drop count, map.nodupKeys.sublist (List.drop_sublist _ _)⟩

/-- The same keys, each value changed. -/
def mapValues (map : KeyedMap κ ν) (change : ν → ν) : KeyedMap κ ν :=
  ⟨map.entries.map fun entry => ⟨entry.1, change entry.2⟩, by
    have keys : (map.entries.map fun entry => (⟨entry.1, change entry.2⟩ : Σ _ : κ, ν)).keys =
        map.entries.keys := by
      simp [List.keys, Function.comp_def]
    rw [List.NodupKeys, keys]
    exact map.nodupKeys⟩

section Lookup

variable [DecidableEq κ]

/-- An entry of a map is what it looks up. -/
theorem mem_entries_iff (map : KeyedMap κ ν) (key : κ) (value : ν) :
    ⟨key, value⟩ ∈ map.entries ↔ map.lookup key = some value :=
  (List.mem_dlookup_iff map.nodupKeys).symm

/-- What is retained is looked up as before, if it is to be kept. -/
theorem lookup_retain (map : KeyedMap κ ν) (keep : κ → ν → Bool) (key : κ) :
    (map.retain keep).lookup key = (map.lookup key).filter (keep key) := by
  apply Option.ext
  intro value
  rw [← mem_entries_iff, Option.filter_eq_some_iff, ← mem_entries_iff, retain, List.mem_filter]

/-- What is found after a drop was there. -/
theorem lookup_of_drop (map : KeyedMap κ ν) (count : Nat) (key : κ) (value : ν)
    (held : (map.drop count).lookup key = some value) : map.lookup key = some value := by
  rw [← mem_entries_iff] at held ⊢
  exact List.mem_of_mem_drop held

/-- A value of a map is under some key of it. -/
theorem mem_values_iff (map : KeyedMap κ ν) (value : ν) :
    value ∈ map.values ↔ ∃ key, map.lookup key = some value := by
  simp only [values, List.mem_map, ← mem_entries_iff]
  constructor
  · rintro ⟨entry, inside, rfl⟩
    exact ⟨entry.1, inside⟩
  · rintro ⟨key, inside⟩
    exact ⟨⟨key, value⟩, inside, rfl⟩

/-- A key inserted is found with its value, and no other is changed. -/
theorem lookup_insert_eq (map : KeyedMap κ ν) (key asked : κ) (value : ν) :
    (map.insert key value).lookup asked = if asked = key then some value else map.lookup asked := by
  by_cases same : asked = key
  · subst same
    rw [if_pos rfl, AList.lookup_insert]
  · rw [if_neg same, AList.lookup_insert_ne same]

/-- Inserting a value for each of a list of keys. -/
theorem lookup_inserted (value : κ → ν) (keys : List κ) (map : KeyedMap κ ν) (asked : κ) :
    (keys.foldl (fun map key => map.insert key (value key)) map).lookup asked =
      if asked ∈ keys then some (value asked) else map.lookup asked := by
  induction keys generalizing map with
  | nil => simp
  | cons key keys ih =>
    rw [List.foldl_cons, ih, lookup_insert_eq]
    by_cases later : asked ∈ keys
    · simp [later]
    · by_cases here : asked = key
      · simp [here]
      · simp [here, later]

/-- A key erased is gone, and no other. -/
theorem lookup_erase_eq (map : KeyedMap κ ν) (key asked : κ) :
    (map.erase key).lookup asked = if asked = key then none else map.lookup asked := by
  by_cases same : asked = key
  · subst same
    rw [if_pos rfl, AList.lookup_erase]
  · rw [if_neg same, AList.lookup_erase_ne same]

/-- Erasing a key that is not there changes nothing. -/
theorem erase_of_lookup_none (map : KeyedMap κ ν) (key : κ) (absent : map.lookup key = none) :
    map.erase key = map := by
  apply AList.ext
  rw [AList.erase]
  exact List.kerase_of_notMem_keys (AList.lookup_eq_none.mp absent)

/-- An entry and the others make up the map. -/
theorem entries_perm_erase (map : KeyedMap κ ν) (key : κ) (value : ν)
    (held : map.lookup key = some value) :
    map.entries.Perm (⟨key, value⟩ :: (map.erase key).entries) := by
  have same : (map.insert key value).entries.Perm map.entries := by
    apply (List.perm_ext_iff_of_nodup (map.insert key value).nodupKeys.nodup
      map.nodupKeys.nodup).mpr
    intro entry
    rw [mem_entries_iff, mem_entries_iff, lookup_insert_eq]
    by_cases here : entry.1 = key
    · rw [if_pos here, here, held]
    · rw [if_neg here]
  rw [AList.entries_insert] at same
  exact same.symm

end Lookup

end KeyedMap

end Ikigai
